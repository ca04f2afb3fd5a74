import ApiRoutes.Json.Reader
import ApiRoutes.Script.Reader
import ApiRoutes.Yaml.Reader
/-!
# Valid files

What is wrong with generated files before they are written.  The end of a file's name says what it
has to hold; other files are not looked at.
-/
namespace ApiRoutes.Project

/-- The formats that files are checked for. -/
inductive Format where
  | script | yaml | json
  deriving DecidableEq

namespace Format

def endings : Format → List String
  | .script => [".js"]
  | .yaml => [".yaml", ".yml"]
  | .json => [".json"]

def isOf (f : Format) (name : Text) : Bool := f.endings.any fun e => Text.endsWith name e

def scriptReason (name content : Text) : Outcome (Option Text) :=
  match Script.Program.parse content (some name) with
  | .ok _ => .ok none
  | .error (.malformed m) => .ok (some m.message)
  | .error f => .error f

def yamlReason (content : Text) : Outcome (Option Text) :=
  match Yaml.parse content with
  | .ok _ => .ok none
  | .error (.broken _ problem line) =>
    .ok (some ("not loadable as YAML (line " ++ Text.ofNat (line + 1) ++ "): " ++ problem))
  | .error (.unacceptable code position) =>
    .ok (some ("not loadable as YAML: " ++ (Yaml.Fault.unacceptable code position).headline ++
      "\n  in \"<unicode string>\", position " ++ Text.ofNat position))
  | .error f => .error (.yaml f)

def jsonReason (content : Text) : Outcome (Option Text) :=
  match Json.parse content with
  | .ok _ => .ok none
  | .error f =>
    match f.cause with
    | .integerTooLong => .error (.json f)
    | cause => .ok (some ("JSON syntax error (line " ++ Text.ofNat f.line ++ "): " ++ cause.message))

def reason (f : Format) (name content : Text) : Outcome (Option Text) :=
  match f with
  | .script => scriptReason name content
  | .yaml => yamlReason content
  | .json => jsonReason content

/-- The files in the format that are wrong, with what is wrong. -/
def reasons (f : Format) (files : List (Text × Text)) : Outcome (List (Text × Text)) := do
  let found ← (files.filter fun (name, _) => f.isOf name).mapM fun (name, content) =>
    return (← f.reason name content).map fun r => (name, r)
  return found.filterMap id

end Format

/-- All files that are wrong, with what is wrong. -/
def invalidFiles (files : List (Text × Text)) : Outcome (List (Text × Text)) := do
  return (← Format.script.reasons files) ++ (← Format.yaml.reasons files) ++
    (← Format.json.reasons files)

end ApiRoutes.Project
