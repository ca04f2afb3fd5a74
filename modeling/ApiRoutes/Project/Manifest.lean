import ApiRoutes.Failure
import ApiRoutes.Value
/-!
# The manifest

Merging default dependencies into the manifest of an app: every module that the manifest lists keeps
its version and its place, and the missing ones follow in the order of the defaults.
-/
namespace ApiRoutes.Project

def dependencySections : List Text := ["dependencies", "devDependencies"]

/-- An entry of a mapping. -/
def entry (k v : Value) : Outcome (Value × Value) :=
  if k.canBeKey then .ok (k, v) else .error (.misuse .notAKey)

/-- The entry that a value of two parts makes. -/
def entryOf : Value → Outcome (Value × Value)
  | .list [k, v] => entry k v
  | .text [a, b] => entry (.text [a]) (.text [b])
  | .bytes [a, b] => entry (.int a.toNat) (.int b.toNat)
  | .map [(a, _), (b, _)] => entry a b
  | .list _ | .text _ | .bytes _ | .map _ | .set _ => .error (.misuse .notPairs)
  | _ => .error (.misuse .notIterable)

/-- A value as a mapping; a list of entries makes one. -/
def entriesOf : Value → Outcome Entries
  | .map entries => .ok entries
  | .list items | .set items => return Value.ofEntries (← items.mapM entryOf)
  | .text [] | .bytes [] => .ok []
  | .text _ => .error (.misuse .notPairs)
  | _ => .error (.misuse .notIterable)

/-- The defaults that are missing, added to what is there. -/
def addMissing (defaults existing : Entries) : Entries :=
  defaults.foldl (fun m e => if Value.hasKey e.1 m then m else m ++ [e]) existing

/-- A section of the manifest with the missing defaults added.  A section that counts as absent
starts empty. -/
def mergeSection (defaults existing : Option Value) : Outcome Entries := do
  let present ← match existing with
    | some v => if v.isTruthy then entriesOf v else pure []
    | none => pure []
  match defaults with
  | none => return addMissing [] present
  | some (.map es) => return addMissing es present
  | some _ => .error (.misuse .notAMapping)

/-- Sections of the manifest brought up to date, one after the other. -/
def mergeSections (defaults existing : Entries) : List Text → Entries → Outcome Entries
  | [], merged => .ok merged
  | name :: rest, merged => do
    let key := Value.text name
    if Value.hasKey key defaults || Value.hasKey key existing then
      let entries ← mergeSection (Value.lookup? key defaults) (Value.lookup? key existing)
      mergeSections defaults existing rest (Value.insert key (.map entries) merged)
    else mergeSections defaults existing rest merged

/-- The manifest with the defaults merged in; a missing manifest becomes the defaults. -/
def mergeManifest (defaults : Entries) : Value → Outcome Value
  | .null => .ok (.map defaults)
  | .map existing => return .map (← mergeSections defaults existing dependencySections existing)
  | v => do
    let entries ← entriesOf v
    if dependencySections.any fun name => Value.hasKey (.text name) defaults then
      .error (.misuse .notAMapping)
    else return .map entries

end ApiRoutes.Project
