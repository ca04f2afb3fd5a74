import ApiRoutes.Base64
import ApiRoutes.Yaml.Style
import ApiRoutes.Yaml.Tree
/-!
# Writing YAML

`Yaml.render` writes a tree in blocks.  A part that stands in several places is written where it
comes first, under an anchor; in the other places stand aliases for it.
-/
namespace ApiRoutes.Yaml

/-! ## Anchors -/

/-- The parts that were met so far, and those met twice, in the order of their second meeting. -/
structure Meetings where
  met : List Nat := []
  shared : List Nat := []

namespace Meetings

/-- Meets a part: whether it is new, and what is known then. -/
def meets (number : Option Nat) (m : Meetings) : Bool × Meetings :=
  match number with
  | none => (true, m)
  | some n =>
    if !m.met.contains n then (true, { m with met := n :: m.met })
    else if m.shared.contains n then (false, m)
    else (false, { m with shared := m.shared ++ [n] })

/-- The number of a scalar that can be shared: only days and moments can. -/
def leafNumber (number : Option Nat) (v : Value) : Option Nat :=
  match v with
  | .date _ | .dateTime _ => number
  | _ => none

mutual

def ofTree (m : Meetings) : Tree → Meetings
  | .leaf number v => (m.meets (leafNumber number v)).2
  | .list number items =>
    let (isNew, m) := m.meets number
    if isNew then ofItems m items else m
  | .set number items =>
    let (isNew, m) := m.meets number
    if isNew then ofItems m items else m
  | .map number entries =>
    let (isNew, m) := m.meets number
    if isNew then ofEntries m entries else m
  | .again number => (m.meets (some number)).2

def ofItems (m : Meetings) : List Tree → Meetings
  | [] => m
  | t :: rest => ofItems (ofTree m t) rest

def ofEntries (m : Meetings) : List (Tree × Tree) → Meetings
  | [] => m
  | (k, v) :: rest => ofEntries (ofTree (ofTree m k) v) rest

end

end Meetings

/-! ## Scalars -/

/-- The words for numbers that are not finite, and exponents as the language has them. -/
def numberSpelling : Binary64.Spelling := ⟨".inf", "-.inf", ".nan", true⟩

/-- The tag of a value and its spelling; bytes and collections have none. -/
def spelling : Value → Tag × Text
  | .null => (.null, "null")
  | .bool b => (.bool, if b then "true" else "false")
  | .int i => (.int, Text.ofInt i)
  | .float x => (.float, x.text numberSpelling)
  | .date d => (.timestamp, d.isoText)
  | .dateTime d => (.timestamp, d.isoText ' ')
  | .text t => (.text, t)
  | _ => (.text, [])

def byteLines (fuel : Nat) (cs : List Char) : List Text :=
  match fuel with
  | 0 => []
  | n + 1 => if cs.isEmpty then [] else Text.ofChars (cs.take 76) :: byteLines n (cs.drop 76)

/-! ## Nodes -/

/-- How far the writer is. -/
structure Sheet where
  pen : Pen := {}
  /-- The parts that have an anchor, in the order of their numbers. -/
  shared : List Nat
  /-- Those that are written already. -/
  done : List Nat := []

namespace Sheet

def draw (f : Pen → Pen) (s : Sheet) : Sheet := { s with pen := f s.pen }

def anchorName? (s : Sheet) (number : Option Nat) : Option Text :=
  (number.bind fun n => s.shared.idxOf? n).map fun i => "id" ++ Text.decimal 3 (i + 1)

def isDone (s : Sheet) (number : Option Nat) : Bool := number.any s.done.contains

def writeAlias (number : Option Nat) (s : Sheet) : Sheet :=
  match s.anchorName? number with
  | some name => s.draw (·.mark ("*" ++ name))
  | none => s

def writeAnchor (number : Option Nat) (s : Sheet) : Sheet :=
  match number, s.anchorName? number with
  | some n, some name => { s.draw (·.mark ("&" ++ name)) with done := n :: s.done }
  | _, _ => s

/-- The most characters of a key on one line, with anchor and tag. -/
def maxKeyLength : Nat := 127

/-- Can a key stand on one line with its colon? -/
def isSimpleKey (s : Sheet) : Tree → Bool
  | .leaf number v =>
    let number := Meetings.leafNumber number v
    let anchorLength := ((s.anchorName? number).map List.length).getD 0
    if s.isDone number then true
    else match v with
      | .bytes _ => false
      | v =>
        let (tag, t) := spelling v
        !t.isEmpty && !isMultiline t &&
          anchorLength + 2 + (tag.name?.getD "").length + t.length ≤ maxKeyLength
  | .list _ items => items.isEmpty
  | .map _ entries => entries.isEmpty
  | .set _ items => items.isEmpty
  | .again _ => true

def writeLeaf (isKey : Bool) (column : Nat) (v : Value) (p : Pen) : Pen :=
  match v with
  | .bytes [] => (p.mark "!!binary").mark "\"\""
  | .bytes bs =>
    let digits := Base64.encode bs
    writeLiteral column (byteLines digits.length digits) (p.mark "!!binary")
  | v =>
    let (tag, t) := spelling v
    writeScalar isKey (Tag.ofSpelling t == tag) column t p

/-- Where the pen stands when a node starts. -/
inductive Position where
  | item
  /-- A key or value of a mapping. -/
  | part
  /-- A key on one line with its colon. -/
  | simpleKey
  deriving DecidableEq

/-- The column of the items of a block inside one at `outer`.  In a mapping they may stand as far to
the left as its keys. -/
def itemColumn (position : Position) (outer : Option Nat) (s : Sheet) : Nat :=
  match outer with
  | none => 0
  | some n => if position != .item && !s.pen.isInMargin then n else n + 2

mutual

/-- Writes a node inside a block at `outer`. -/
def writeNode (position : Position) (outer : Option Nat) (s : Sheet) : Tree → Sheet
  | .leaf number v =>
    let number := Meetings.leafNumber number v
    if s.isDone number then s.writeAlias number
    else (s.writeAnchor number).draw
      (writeLeaf (position == .simpleKey) ((outer.map (· + 2)).getD 2) v)
  | .list number items =>
    if s.isDone number then s.writeAlias number
    else
      let s := s.writeAnchor number
      match items with
      | [] => s.draw fun p => (p.mark "[").closeMark "]"
      | items => writeItems (s.itemColumn position outer) s items
  | .set number items =>
    if s.isDone number then s.writeAlias number
    else
      let s := (s.writeAnchor number).draw (·.mark "!!set")
      match items with
      | [] => s.draw fun p => (p.mark "\x7b").closeMark "\x7d"
      | items => writeMembers ((outer.map (· + 2)).getD 0) s items
  | .map number entries =>
    if s.isDone number then s.writeAlias number
    else
      let s := s.writeAnchor number
      match entries with
      | [] => s.draw fun p => (p.mark "\x7b").closeMark "\x7d"
      | entries => writeEntries ((outer.map (· + 2)).getD 0) s entries
  | .again number => s.writeAlias (some number)

def writeItems (column : Nat) (s : Sheet) : List Tree → Sheet
  | [] => s
  | t :: rest =>
    let s := s.draw fun p => (p.moveTo column).blockMark "-"
    writeItems column (writeNode .item (some column) s t) rest

def writeEntries (column : Nat) (s : Sheet) : List (Tree × Tree) → Sheet
  | [] => s
  | (k, v) :: rest =>
    let s := s.draw (·.moveTo column)
    let s :=
      if s.isSimpleKey k then (writeNode .simpleKey (some column) s k).draw (·.closeMark ":")
      else
        (writeNode .part (some column) (s.draw (·.blockMark "?")) k).draw fun p =>
          (p.moveTo column).blockMark ":"
    writeEntries column (writeNode .part (some column) s v) rest

/-- Writes the members of a set at a column, as keys without values. -/
def writeMembers (column : Nat) (s : Sheet) : List Tree → Sheet
  | [] => s
  | t :: rest =>
    let s := s.draw (·.moveTo column)
    let s :=
      if s.isSimpleKey t then (writeNode .simpleKey (some column) s t).draw (·.closeMark ":")
      else
        (writeNode .part (some column) (s.draw (·.blockMark "?")) t).draw fun p =>
          (p.moveTo column).blockMark ":"
    writeMembers column (s.draw (writeLeaf false (column + 2) .null)) rest

end

end Sheet

def render (t : Tree) : Text :=
  let s : Sheet := { shared := (Meetings.ofTree {} t).shared }
  ((s.writeNode .item none t).draw (·.moveTo 0)).pen.text

end ApiRoutes.Yaml
