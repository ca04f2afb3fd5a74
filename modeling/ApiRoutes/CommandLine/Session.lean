import ApiRoutes.CommandLine.Call
import ApiRoutes.Project.Generation
import ApiRoutes.Project.Source
/-!
# Sessions

A session runs a command: it reads the call, changes the disk, and prints what it does (`run`).
-/
namespace ApiRoutes.CommandLine

open Project

/-! ## The commands -/

def versionText : Text := "route-scaffold, version 0.1.0"

def generateCommand : Command where
  call := "route-scaffold generate"
  environmentLead := "ROUTE_SCAFFOLD_GENERATE"
  help := "Generate route modules for every endpoint of an API document."
  options := [
    { name := "api-doc", short := 'a', kind := .word, isRequired := true
      help := "Path to the OpenAPI v2 document (YAML or JSON)." },
    { name := "target-folder", short := 't', kind := .folder
      help := "Project folder to generate into." },
    { name := "write-policy", kind := .choice (WritePolicy.every.map WritePolicy.name)
      help := "What to write when an endpoint fails." },
    { name := "bootstrap-file", kind := .word
      help := "Module holding the api version init hook, relative to the target." },
    { name := "init-hook", kind := .word
      help := "Function that registers the api versions." },
    { name := "app-identifier", kind := .word
      help := "Name of the express app passed to each api version." },
    { name := "dry-run", help := "Show the diffs, write nothing." },
    helpOption]

def mainCommand : Command where
  call := "route-scaffold"
  environmentLead := "ROUTE_SCAFFOLD"
  help := "Route Scaffold: generate and update express-openapi route modules from API docs."
  options := [
    { name := "version", role := .version, help := "Show the version and exit." },
    { name := "verbose", short := 'v', help := "Log every step." },
    helpOption]
  commands := [("generate", generateCommand.help)]

/-! ## Printing -/

/-- What a session works on: the disk, and what it has printed. -/
structure Console where
  disk : Disk
  output : Text := []
  errors : Text := []

/-- How a session ends before its time. -/
inductive Stop where
  /-- There was only something to show. -/
  | shown
  /-- The command was called wrongly. -/
  | misused
  /-- The command could not do all its work, and said so. -/
  | failed
  /-- A failure that nobody expects. -/
  | crashed (f : Failure)

abbrev Session (α : Type) := ExceptT Stop (StateM Console) α

def put (t : Text) : Session Unit := modify fun c => { c with output := c.output ++ t }

def say (line : Text) : Session Unit := put (line ++ "\n")

def putError (t : Text) : Session Unit := modify fun c => { c with errors := c.errors ++ t }

def complain (line : Text) : Session Unit := putError (line ++ "\n")

/-- Prints a record.  Only problems are printed unless everything is to be. -/
def tell (verbose : Bool) (r : Record) : Session Unit := do
  if r.level.isProblem then complain r.line
  else if verbose then say r.line

def failureText (f : Failure) : Text :=
  match f with
  | .system fault path =>
    "[Errno " ++ Text.ofNat fault.code ++ "] " ++ fault.message ++ ": " ++ path.display
  | f => f.message?.getD []

def fail {α : Type} (reason : Text) : Session α := do
  complain ("Error: " ++ reason)
  throw .failed

def failWith {α : Type} (f : Failure) : Session α :=
  match f with
  | .system .. => fail (failureText f)
  | f => if f.isExpected then fail (failureText f) else throw (.crashed f)

/-- Does a part of the work, and prints its records. -/
def work {α : Type} (verbose : Bool) (e : Edit Disk α) : Session α := do
  let (disk, result, logs) := e.perform (← get).disk
  modify fun c => { c with disk }
  logs.forM (tell verbose)
  match result with
  | .ok a => return a
  | .error f => failWith f

/-! ## Generating -/

def showResult (r : EndpointResult) : Session Unit :=
  match r.outcome with
  | .ok f =>
    say ("  " ++ r.endpoint ++ " -> " ++ f.path ++
      (if f.isChanged then " (changed)" else " (unchanged)"))
  | .error f => complain ("  " ++ r.endpoint ++ " -> FAILED: " ++ failureText f)

def showReport (r : Report) : Session Unit := do
  r.staged.forM fun path => say ("  Staged " ++ path)
  r.endpoints.forM showResult
  if r.dryRun then put r.patch
  else
    r.written.forM fun path => say ("  Wrote " ++ path)
    if r.manifestUpdated then say "  Updated package.json"

def settingsOf (choices : Choices) : Settings :=
  let usual : Settings := {}
  { usual with
    target := ((choices.word? "target-folder").map Path.ofText).getD usual.target
    bootstrapFile := (choices.word? "bootstrap-file").getD usual.bootstrapFile
    wiring :=
      ⟨(choices.word? "init-hook").getD usual.wiring.hook,
        (choices.word? "app-identifier").getD usual.wiring.app⟩
    policy := ((choices.word? "write-policy").bind WritePolicy.ofName?).getD usual.policy }

def generateSession (verbose : Bool) (choices : Choices) : Session Unit := do
  let source := (choices.word? "api-doc").getD []
  let settings := settingsOf choices
  let dryRun := choices.isSet "dry-run"
  say ("Parsing " ++ source ++ "...")
  let document ← work verbose do Edit.ofLogged (readDocument (← get) source)
  let endpoints ← work verbose (Edit.ofLogged document.endpoints)
  say ("Found " ++ Text.ofNat endpoints.length ++ " endpoints.")
  say ("Generating into " ++ settings.target.text ++ (if dryRun then " (dry run)" else "") ++ "...")
  let report ← work verbose (generate document settings dryRun)
  showReport report
  if !report.isOk then fail (Text.ofNat report.failures.length ++ " endpoint(s) failed")
  say ("Done! api version " ++ report.tag)

/-! ## Calls -/

def misuse {α : Type} (c : Command) (f : Fault) : Session α := do
  putError (c.complaint f)
  throw .misused

/-- The settings of a call and the words that are no options, unless there is only something to
show. -/
def settingsOrShow (env : Environment) (c : Command) (words : List Text) :
    Session (Choices × List Text) := do
  match readCall env (← get).disk c words with
  | .error f => misuse c f
  | .ok (.help, _) => do
    put c.helpText
    throw .shown
  | .ok (.version, _) => do
    say versionText
    throw .shown
  | .ok (.settings choices, others) => return (choices, others)

def session (env : Environment) (words : List Text) : Session Unit := do
  if words.isEmpty then
    putError mainCommand.helpText
    throw .misused
  let (choices, others) ← settingsOrShow env mainCommand words
  match others with
  | [] => misuse mainCommand .commandMissing
  | name :: rest =>
    if name != "generate" then
      if givesOptions name then
        let _ ← settingsOrShow env mainCommand others
      misuse mainCommand (.unknownCommand name)
    let verbose := choices.isSet "verbose"
    let (choices, others) ← settingsOrShow env generateCommand rest
    if !others.isEmpty then misuse generateCommand (.extraWords others)
    generateSession verbose choices

/-- The places that a call is about: the document, the sources of the app, its bootstrap module and
its manifest. -/
def placesOf (env : Environment) (words : List Text) : List Path :=
  match readCall env {} mainCommand words with
  | .ok (_, _ :: rest) =>
    match readCall env {} generateCommand rest with
    | .ok (.settings choices, _) =>
      let settings := settingsOf choices
      [.ofText ((choices.word? "api-doc").getD []), settings.target.child "src",
        settings.bootstrapPath, settings.manifestPath]
    | _ => []
  | _ => []

/-- What is left of a session: the console, the code for the caller, and the failure that nobody
expected. -/
structure Ending where
  console : Console
  code : Nat
  crash : Option Failure := none

def run (env : Environment) (words : List Text) (disk : Disk) : Ending :=
  let (result, console) := (ExceptT.run (session env words)).run { disk }
  match result with
  | .ok () | .error .shown => { console, code := 0 }
  | .error .misused => { console, code := 2 }
  | .error .failed => { console, code := 1 }
  | .error (.crashed f) => { console, code := 1, crash := some f }

end ApiRoutes.CommandLine
