import ApiRoutes.Yaml.Node
/-!
# Merge keys

The entries under a merge key are those of other mappings.  `Node.mergeKeys` puts them into the
mapping itself, before its own entries.  Where that is impossible the fault stays with the mapping,
since it is reported only after those of the nodes around.
-/
namespace ApiRoutes.Yaml.Node

/-- What merge keys add to a mapping, what is left of its own entries, and the first fault. -/
structure Merged where
  added : List (Node × Node) := []
  own : List (Node × Node) := []
  fault : Option Fault := none

/-- A fault of a mapping on `line`, whose merge key has such a value. -/
def mergeFault (expected : String) (found : Node) : Fault :=
  .broken (some "while constructing a mapping")
    ("expected a " ++ Text.ofString expected ++ " for merging, but found " ++ found.kindName)
    found.line

/-- The entries of a mapping that is merged, and its fault. -/
def mergedEntries? : Node → Option (List (Node × Node) × Option Fault)
  | .mapping _ _ entries fault _ => some (entries, fault)
  | .back .. => some ([], none)
  | _ => none

/-- The entries of a list of mappings; later ones give way to earlier ones and so stand before
them. -/
def mergedItems : List Node → List (Node × Node) × Option Fault
  | [] => ([], none)
  | n :: rest =>
    match mergedEntries? n with
    | none => ([], some (mergeFault "mapping" n))
    | some (entries, some fault) => (entries, some fault)
    | some (entries, none) =>
      let (more, fault) := mergedItems rest
      (more ++ entries, fault)

/-- What is merged from the value of a merge key. -/
def mergedFrom (n : Node) : List (Node × Node) × Option Fault :=
  match n with
  | .sequence _ _ items _ => mergedItems items
  | n => (mergedEntries? n).getD ([], some (mergeFault "mapping or list of mappings" n))

/-- The key of an entry; the key of a scalar value is an ordinary text here. -/
def ordinaryKey : Node → Node
  | .scalar number .value text line => .scalar number .text text line
  | n => n

/-- One more entry before the others, when merge keys are replaced. -/
def Merged.cons (key value : Node) (m : Merged) : Merged :=
  if key.tag == .merge then
    let (added, fault) := mergedFrom value
    { m with added := added ++ m.added, fault := fault.or m.fault }
  else { m with own := (ordinaryKey key, value) :: m.own }

mutual

/-- The node with the entries under its merge keys among its own, all the way down.  A mapping that
stands for something else is left alone. -/
def mergeKeys : Node → Node
  | .sequence number tag items line => .sequence number tag (mergeItems items) line
  | .mapping number tag entries _ line =>
    if tag == .mapping || tag == .set then
      let m := mergeEntries entries
      .mapping number tag (m.added ++ m.own) m.fault line
    else .mapping number tag entries none line
  | n => n

def mergeItems : List Node → List Node
  | [] => []
  | n :: rest => mergeKeys n :: mergeItems rest

def mergeEntries : List (Node × Node) → Merged
  | [] => {}
  | (key, value) :: rest => (mergeEntries rest).cons (mergeKeys key) (mergeKeys value)

end

end ApiRoutes.Yaml.Node
