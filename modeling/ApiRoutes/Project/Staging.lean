import ApiRoutes.Disk.Change
import ApiRoutes.Json.Reader
import ApiRoutes.Json.Writer
import ApiRoutes.Project.File
import ApiRoutes.Project.Manifest
import ApiRoutes.Project.Settings
import ApiRoutes.Project.Skeleton
/-!
# Staging an app

What surrounds the route modules: the skeleton, whose files are created once (`stageSkeleton`), the
bootstrap module, where the version is registered (`registerVersion`), and the manifest, which gets
the dependencies that it lacks (`updateManifest`).
-/
namespace ApiRoutes.Project

open Disk

/-! ## The skeleton -/

/-- Creates a file of the skeleton, unless there is something in its place or the run is dry.  Gives
its path when there was nothing. -/
def stageFile (target : Path) (dryRun : Bool) (path content : Text) : Edit Disk (Option Text) := do
  let place := target.child path
  if ← Edit.ask (·.holds place) then return none
  if !dryRun then
    ensureFolders place.parent
    writeFile place content
    Edit.log .info ("Created " ++ path)
  return some path

/-- Creates the files of the skeleton that are not there yet.  Gives their paths. -/
def stageSkeleton (target : Path) (tag : Text) (dryRun : Bool) : Edit Disk (List Text) := do
  let staged ← skeletonFiles.mapM fun (path, content) =>
    stageFile target dryRun (pathFor tag path) content
  return staged.filterMap id

/-! ## The bootstrap module -/

/-- The bootstrap module as it is, and the text that a version is registered in.  A module that a
dry run would create is taken from the skeleton. -/
def bootstrapText (s : Settings) (tag : Text) (staged : List Text) :
    Edit Disk (Option Text × Option Text) := do
  let previous ← Edit.ask (·.readText? s.bootstrapPath)
  if previous.isNone && staged.contains s.bootstrapFile then
    return (previous, skeletonText? s.bootstrapFile tag)
  return (previous, previous)

/-- Registers a version in the bootstrap module; nothing when the module is missing or stays as it
is. -/
def registerVersion (s : Settings) (tag : Text) (dryRun : Bool) (staged : List Text) :
    Edit Disk (Option GeneratedFile) := do
  match ← bootstrapText s tag staged with
  | (_, none) => do
    Edit.log .warning (s.bootstrapFile ++ " not found, api version " ++ tag ++ " not registered")
    return none
  | (previous, some text) => do
    match ← Edit.ofLogged (patchBootstrap s.wiring tag text (some s.bootstrapFile)) with
    | none => return none
    | some patched => do
      if !dryRun then writeAtomically s.bootstrapPath patched
      return some ⟨s.bootstrapFile, patched, previous⟩

/-! ## The manifest -/

/-- The value of a manifest; a missing one is nothing. -/
def manifestValue (path : Path) (content : Option Text) : Outcome Value :=
  match content with
  | none => .ok .null
  | some t => (Json.parse t).mapError fun fault =>
    match fault.cause with
    | .integerTooLong => .json fault
    | cause => .malformed ⟨some path.text, some fault.line, .manifest cause⟩

def manifestText (v : Value) : Text := Json.render v ++ "\n"

/-- Merges the default dependencies into a manifest.  Tells whether the file changed. -/
def updateManifest (path : Path) : Edit Disk Bool := do
  let existing ← Edit.ask fun d => do manifestValue path (← d.readText? path)
  let merged ← Edit.ofOutcome (mergeManifest defaultManifest existing)
  if merged = existing then return false
  writeAtomically path (manifestText merged)
  Edit.log .info ("Updated " ++ path.name)
  return true

end ApiRoutes.Project
