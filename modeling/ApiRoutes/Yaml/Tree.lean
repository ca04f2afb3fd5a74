import ApiRoutes.Value
/-!
# Document values that share parts

Through aliases one and the same list, mapping or day can stand in several places of a document, and
a document that is written keeps this.  A tree is a value (`Tree.erase`) whose parts have numbers;
parts with the same number are the same.
-/
namespace ApiRoutes.Yaml

/-- A document value with numbers for the parts that can be shared. -/
inductive Tree where
  | leaf (number : Option Nat) (value : Value)
  | list (number : Option Nat) (items : List Tree)
  | map (number : Option Nat) (entries : List (Tree × Tree))
  | set (number : Option Nat) (items : List Tree)
  /-- A part that this one is part of. -/
  | again (number : Nat)
  deriving Inhabited

namespace Tree

mutual

/-- The value of a tree.  A part that holds itself has none, and counts as absent inside. -/
def erase : Tree → Value
  | .leaf _ v => v
  | .list _ items => .list (eraseItems items)
  | .map _ entries => .map (eraseEntries entries)
  | .set _ items => .set (eraseItems items)
  | .again _ => .null

def eraseItems : List Tree → List Value
  | [] => []
  | t :: rest => erase t :: eraseItems rest

def eraseEntries : List (Tree × Tree) → Entries
  | [] => []
  | (k, v) :: rest => (erase k, erase v) :: eraseEntries rest

end

mutual

def ofValue : Value → Tree
  | .list items => .list none (ofItems items)
  | .map entries => .map none (ofEntries entries)
  | .set items => .set none (ofItems items)
  | .null => .leaf none .null
  | .bool b => .leaf none (.bool b)
  | .int i => .leaf none (.int i)
  | .float x => .leaf none (.float x)
  | .text t => .leaf none (.text t)
  | .date d => .leaf none (.date d)
  | .dateTime d => .leaf none (.dateTime d)
  | .bytes bs => .leaf none (.bytes bs)

def ofItems : List Value → List Tree
  | [] => []
  | v :: rest => ofValue v :: ofItems rest

def ofEntries : Entries → List (Tree × Tree)
  | [] => []
  | (k, v) :: rest => (ofValue k, ofValue v) :: ofEntries rest

end

mutual

theorem erase_ofValue : ∀ v : Value, (ofValue v).erase = v
  | .list items => by simp [ofValue, erase, eraseItems_ofItems items]
  | .map entries => by simp [ofValue, erase, eraseEntries_ofEntries entries]
  | .set items => by simp [ofValue, erase, eraseItems_ofItems items]
  | .null | .bool _ | .int _ | .float _ | .text _ | .date _ | .dateTime _ | .bytes _ => by
    simp [ofValue, erase]

theorem eraseItems_ofItems : ∀ vs : List Value, eraseItems (ofItems vs) = vs
  | [] => rfl
  | v :: rest => by simp [ofItems, eraseItems, erase_ofValue v, eraseItems_ofItems rest]

theorem eraseEntries_ofEntries : ∀ es : Entries, eraseEntries (ofEntries es) = es
  | [] => rfl
  | (k, v) :: rest => by
    simp [ofEntries, eraseEntries, erase_ofValue k, erase_ofValue v, eraseEntries_ofEntries rest]

end

def canBeKey : Tree → Bool
  | .leaf .. => true
  | _ => false

/-- Puts a value at a key: a new key goes to the end, an old one keeps its place. -/
def insert (key value : Tree) (entries : List (Tree × Tree)) : List (Tree × Tree) :=
  let isKey (e : Tree × Tree) : Bool := e.1.erase.sameValue key.erase
  if entries.any isKey then entries.map fun e => if isKey e then (e.1, value) else e
  else entries ++ [(key, value)]

/-- The entries of a mapping, the last of equal keys winning. -/
def distinct (entries : List (Tree × Tree)) : List (Tree × Tree) :=
  entries.foldl (fun m e => insert e.1 e.2 m) []

end Tree

end ApiRoutes.Yaml
