import ApiRoutes.Project.BaseDocument
import ApiRoutes.Project.Report
import ApiRoutes.Project.Staging
import ApiRoutes.Project.Validity
import ApiRoutes.Route.Merge
/-!
# Generating an app

`generate` stages an app, merges every endpoint of a document into its module, looks whether what
came out is valid, and then writes it.  Endpoints are merged independently of each other: one that
fails is reported, and the write policy says what becomes of the others.
-/
namespace ApiRoutes.Project

open Disk

/-! ## Endpoints -/

def mergeIntoFile (target : Path) (path : Text) (e : Spec.Endpoint) : Edit Disk GeneratedFile := do
  let previous ← Edit.ask (·.readText? (target.child path))
  let content ← Edit.ofLogged (Route.renderEndpoint previous e (some path))
  return ⟨path, content, previous⟩

/-- An endpoint that failed: the failure is logged, unless it is one that nobody expects. -/
def failedEndpoint (e : Spec.Endpoint) (path : Option Text) (f : Failure) :
    Edit Disk EndpointResult := do
  if !f.isExpected then throw f
  Edit.log .error (e.path ++ ": " ++ f.message?.getD [])
  return ⟨e.path, path, .error f⟩

def mergeEndpointFile (target : Path) (tag : Text) (e : Spec.Endpoint) :
    Edit Disk EndpointResult :=
  match Route.endpointFile tag e.path with
  | .error f => failedEndpoint e none f
  | .ok path =>
    tryCatch (do return ⟨e.path, some path, .ok (← mergeIntoFile target path e)⟩)
      (failedEndpoint e (some path))

/-! ## Checking -/

/-- Texts by their paths; of two texts for one path the later one counts. -/
def textsByPath (files : List GeneratedFile) : List (Text × Text) :=
  files.foldl (fun texts f =>
    if texts.any fun t => t.1 == f.path then
      texts.map fun t => if t.1 == f.path then (f.path, f.content) else t
    else texts ++ [(f.path, f.content)]) []

def reasonFor? (path : Text) (faults : List (Text × Text)) : Option Text :=
  (faults.find? fun f => f.1 == path).map (·.2)

def checkedResult (faults : List (Text × Text)) (r : EndpointResult) :
    Edit Disk EndpointResult := do
  match r.outcome with
  | .error _ => return r
  | .ok f =>
    match reasonFor? f.path faults with
    | none => return r
    | some reason => do
      Edit.log .error (r.endpoint ++ ": generated module does not parse: " ++ reason)
      return { r with outcome := .error (.brokenModule reason) }

/-- Checks all generated files.  A broken base document ends the generation, a broken module fails
its endpoint. -/
def checkFiles (baseDocument : GeneratedFile) (endpoints : List EndpointResult) :
    Edit Disk (List EndpointResult) := do
  let files := endpoints.filterMap EndpointResult.file? ++ [baseDocument]
  let faults ← Edit.ofOutcome (invalidFiles (textsByPath files))
  match reasonFor? baseDocument.path faults with
  | some reason => throw (.brokenOutput baseDocument.path reason)
  | none => endpoints.mapM (checkedResult faults)

/-! ## Writing -/

/-- Writes the files that change, one after the other.  Gives their paths. -/
def writeFiles (target : Path) (files : List GeneratedFile) : Edit Disk (List Text) :=
  (files.filter GeneratedFile.isChanged).mapM fun f => do
    writeAtomically (target.child f.path) f.content
    Edit.log .info ("Wrote " ++ f.path)
    return f.path

/-! ## The whole -/

/-- The base document of a version, as it is on the disk and as it will be. -/
def baseDocument (d : Spec.ApiDocument) (target : Path) (tag : Text) : Edit Disk GeneratedFile := do
  let path := baseDocumentFile tag
  if ← Edit.ask (·.holds (target.child path)) then
    Edit.log .warning ("Will overwrite " ++ path)
  let content ← Edit.ofOutcome (renderBaseDocument d)
  let previous ← Edit.ask (·.readText? (target.child path))
  return ⟨path, content, previous⟩

/-- All that comes before the writing of what was generated. -/
def prepare (d : Spec.ApiDocument) (s : Settings) (dryRun : Bool) : Edit Disk Report := do
  let tag := d.tag
  let staged ← stageSkeleton s.target tag dryRun
  let bootstrap ← registerVersion s tag dryRun staged
  let baseDocument ← baseDocument d s.target tag
  let endpoints ← Edit.ofLogged d.endpoints
  let results ← endpoints.mapM (mergeEndpointFile s.target tag)
  let results ← checkFiles baseDocument results
  let written := if dryRun then [] else (bootstrap.map (·.path)).toList
  return { tag, dryRun, staged, bootstrap, baseDocument, endpoints := results, written }

/-- Generates the app of a document, or tells in a dry run what would be generated. -/
def generate (d : Spec.ApiDocument) (s : Settings) (dryRun : Bool) : Edit Disk Report := do
  let report ← prepare d s dryRun
  if dryRun then return report
  if !report.isOk && s.policy = .allOrNothing then
    Edit.log .error
      (Text.ofNat report.failures.length ++ " endpoint(s) failed, no route module written")
    return report
  let written ← writeFiles s.target (report.baseDocument :: report.modules)
  let manifestUpdated ← updateManifest s.manifestPath
  return { report with written := report.written ++ written, manifestUpdated }

end ApiRoutes.Project
