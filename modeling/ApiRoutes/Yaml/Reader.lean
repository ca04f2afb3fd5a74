import ApiRoutes.Yaml.Merge
import ApiRoutes.Yaml.Scalar.Value
import ApiRoutes.Yaml.Tree
/-!
# Reading YAML

`Yaml.read` reads a text as a document value.  Nodes get their values from the outside in, level by
level, so of several faults the one furthest out is reported, and the first on its level.
-/
namespace ApiRoutes.Yaml

/-- The first fault on each level of nodes, from the outermost on. -/
abbrev Faults := List (Option Fault)

namespace Faults

/-- The faults of two nodes side by side. -/
def beside : Faults → Faults → Faults
  | [], b => b
  | a, [] => a
  | x :: a, y :: b => x.or y :: beside a b

/-- The fault of a single node. -/
def one (f : Option Fault) : Faults :=
  match f with
  | none => []
  | some f => [some f]

def problem (context : Option Text) (text : Text) (line : Nat) : Faults :=
  [some (.broken context text line)]

def first? (fs : Faults) : Option Fault := fs.findSome? id

end Faults

/-- A tree with the faults that were found in it. -/
structure Built where
  tree : Tree
  faults : Faults := []

namespace Built

/-- A tree whose parts have faults; those are one level further in. -/
def ofParts (tree : Tree) (faults : Faults) : Built :=
  { tree, faults := if faults.isEmpty then [] else none :: faults }

/-- A node that is none of the kind that its tag asks for. -/
def mismatch (expected : String) (n : Node) : Faults :=
  Faults.problem none
    ("expected a " ++ Text.ofString expected ++ " node, but found " ++ n.kindName) n.line

def scalar (number : Nat) (tag : Tag) (text : Text) (line : Nat) : Built :=
  match tag.scalarValue text with
  | .ok v => { tree := .leaf (some number) v }
  | .error (.fault f) => { tree := .leaf none .null, faults := [some (.scalar f)] }
  | .error (.problem t) => { tree := .leaf none .null, faults := Faults.problem none t line }

/-- The entry of a mapping on `line`; its key must be able to be one. -/
def entryFaults (key value : Built) (keyLine : Nat) : Faults :=
  let keyFault :=
    if key.tree.canBeKey then []
    else Faults.problem (some "while constructing a mapping") "found unhashable key" keyLine
  (key.faults.beside keyFault).beside value.faults

/-- Items side by side. -/
def itemFaults (items : List Built) : Faults := items.foldr (fun b fs => b.faults.beside fs) []

/-- What a node with a tag for a list of pairs is called in messages. -/
def pairsContext (tag : Tag) : Text :=
  if tag == .orderedMap then "while constructing an ordered map" else "while constructing pairs"

/-- The faults of an item of a list of pairs, which has to be a mapping with one entry. -/
def pairFault (tag : Tag) (n : Node) : Faults :=
  match n with
  | .mapping _ _ [_] _ _ => []
  | .mapping _ _ entries _ line =>
    Faults.problem (some (pairsContext tag))
      ("expected a single mapping item, but found " ++ Text.ofNat entries.length ++ " items") line
  | n =>
    Faults.problem (some (pairsContext tag))
      ("expected a mapping of length 1, but found " ++ n.kindName) n.line

def notSequence (tag : Tag) (n : Node) : Faults :=
  match tag with
  | .sequence => mismatch "sequence" n
  | tag =>
    Faults.problem (some (pairsContext tag)) ("expected a sequence, but found " ++ n.kindName) n.line

/-- A node of a kind that its tag does not stand for. -/
def unfit (n : Node) : Built :=
  let empty := Tree.leaf none .null
  match n.tag with
  | .sequence => ofParts (.list none []) (mismatch "sequence" n)
  | .orderedMap => ofParts (.list none []) (notSequence .orderedMap n)
  | .pairs => ofParts (.list none []) (notSequence .pairs n)
  | .mapping => ofParts (.map none []) (mismatch "mapping" n)
  | .set => ofParts (.set none []) (mismatch "mapping" n)
  | .other _ | .merge | .value =>
    { tree := empty, faults := Faults.problem none
        ("could not determine a constructor for the tag " ++ n.tag.uri.display) n.line }
  | _ => { tree := empty, faults := mismatch "scalar" n }

/-- The scalar that a mapping stands for where a scalar is called for: the value of its first key for
that. -/
def scalarOf? (entries : List (Node × Node)) : Option Text :=
  match entries.find? fun e => e.1.tag == .value with
  | some (_, .scalar _ _ text _) => some text
  | _ => none

mutual

def ofNode : Node → Built
  | .scalar number tag text line =>
    match tag with
    | .sequence | .orderedMap | .pairs | .mapping | .set => unfit (.scalar number tag text line)
    | tag => scalar number tag text line
  | .sequence number tag items line =>
    match tag with
    | .sequence =>
      let bs := ofItems items
      ofParts (.list (some number) (bs.map (·.tree))) (itemFaults bs)
    | .orderedMap | .pairs =>
      let (trees, faults) := ofPairs tag items
      ofParts (.list (some number) trees) faults
    | tag => unfit (.sequence number tag items line)
  | .mapping number tag entries fault line =>
    match tag with
    | .mapping =>
      let (trees, faults) := ofEntries entries
      ofParts (.map (some number) (Tree.distinct trees)) ((Faults.one fault).beside faults)
    | .set =>
      let (trees, faults) := ofEntries entries
      ofParts (.set (some number) ((Tree.distinct trees).map (·.1)))
        ((Faults.one fault).beside faults)
    | .null | .bool | .int | .float | .binary | .timestamp | .text =>
      match scalarOf? entries with
      | some text => scalar number tag text line
      | none => unfit (.mapping number tag entries fault line)
    | tag => unfit (.mapping number tag entries fault line)
  | .back number _ => { tree := .again number }

def ofItems : List Node → List Built
  | [] => []
  | n :: rest => ofNode n :: ofItems rest

/-- The trees of entries, and all their faults. -/
def ofEntries : List (Node × Node) → List (Tree × Tree) × Faults
  | [] => ([], [])
  | (k, v) :: rest =>
    let key := ofNode k
    let value := ofNode v
    let (more, faults) := ofEntries rest
    ((key.tree, value.tree) :: more, (entryFaults key value k.line).beside faults)

/-- The lists of two that mappings with one entry stand for, and all their faults. -/
def ofPairs (tag : Tag) : List Node → List Tree × Faults
  | [] => ([], [])
  | .mapping _ _ [(k, v)] _ _ :: rest =>
    let key := ofNode k
    let value := ofNode v
    let (more, faults) := ofPairs tag rest
    (.list none [key.tree, value.tree] :: more, (key.faults.beside value.faults).beside faults)
  | n :: rest =>
    let (more, faults) := ofPairs tag rest
    (more, (pairFault tag n).beside faults)

end

end Built

def isAcceptable (c : CodePoint) : Bool :=
  let n := c.val
  n == 0x09 || n == 0x0A || n == 0x0D || (0x20 ≤ n && n ≤ 0x7E) || n == 0x85 ||
    (0xA0 ≤ n && n ≤ 0xD7FF) || (0xE000 ≤ n && n ≤ 0xFFFD) || 0x10000 ≤ n

/-- The characters of a text that may be YAML, or the first code point that may not. -/
def characters (t : Text) : Except Fault (List Char) :=
  match t.findIdx? (!isAcceptable ·), t.find? (!isAcceptable ·) with
  | some i, some c => .error (.unacceptable c.val i)
  | _, _ => .ok (t.map fun c => (c.char?).getD '\uFFFD')

/-- Reads a text that holds one document.  No document is nothing. -/
def read (t : Text) : Except Fault Tree := do
  match ← Node.ofTokens (Tokens.ofChars (← characters t)) with
  | none => return .leaf none .null
  | some n =>
    let b := Built.ofNode n.mergeKeys
    match b.faults.first? with
    | some f => throw f
    | none => return b.tree

def parse (t : Text) : Except Fault Value := (read t).map Tree.erase

end ApiRoutes.Yaml
