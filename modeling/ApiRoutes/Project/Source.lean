import ApiRoutes.Disk.Tree
import ApiRoutes.Spec.Document
import ApiRoutes.Yaml.Reader
/-!
# Reading API documents

An API document is read from a file in YAML; JSON texts are such files as well.
-/
namespace ApiRoutes.Project

def addressStarts : List String := ["http://", "https://"]

def unreadable (source : Text) (f : Failure) : Failure :=
  match f with
  | .system fault _ => .unreadable source fault
  | f => f

/-- The tree that a text in YAML describes. -/
def treeOf (source content : Text) : Outcome Yaml.Tree :=
  (Yaml.read content).mapError fun fault =>
    if fault.isOfForm then .notYaml source fault else .yaml fault

def readDocument (d : Disk) (source : Text) : List Record × Outcome Spec.ApiDocument :=
  if addressStarts.any fun s => source.startsWith s then ([], .error (.urlSource source))
  else
    let path := Path.ofText source
    let tree := do
      treeOf path.text (← (d.readText path).mapError (unreadable path.text))
    match tree with
    | .ok t => Spec.ApiDocument.ofTree t path.text
    | .error f => ([], .error f)

end ApiRoutes.Project
