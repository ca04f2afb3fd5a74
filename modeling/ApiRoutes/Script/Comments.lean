import ApiRoutes.Script.Node
/-!
# Comments and their neighbours

Siblings in a source, some of them comments, are grouped (`groups`): a run of comments without a
blank line right above a sibling belongs to it, a comment on the line that a sibling ends on trails
it, and every other comment stands on its own.
-/
namespace ApiRoutes.Script

/-- A comment and the rows that it stands on. -/
structure PlacedComment where
  comment : Comment
  firstRow : Nat
  lastRow : Nat
  deriving DecidableEq

/-- One of the siblings: a comment, or something else and the rows that it stands on. -/
inductive Sibling (α : Type) where
  | comment (c : PlacedComment)
  | item (firstRow lastRow : Nat) (value : α)

/-- A sibling with the comments that belong to it. -/
structure Group (α : Type) where
  leading : List PlacedComment := []
  /-- The sibling, or a comment that stands on its own. -/
  main : PlacedComment ⊕ α
  trailing : Option PlacedComment := none
  /-- Whether a blank line stands above; `none` for the first of all. -/
  blankBefore : Option Bool

namespace Group

variable {α : Type}

/-- All of a group, in the order of the source. -/
def flatten (g : Group α) : List (PlacedComment ⊕ α) :=
  g.leading.map .inl ++ g.main :: g.trailing.toList.map .inl

/-- The layout that a group gives to its sibling. -/
def layout (g : Group α) : Layout where
  comments := g.leading.map (·.comment)
  trailing := g.trailing.map (·.comment)
  blankBefore := g.blankBefore

end Group

variable {α : Type}

/-- Whether a blank line lies between the row that something ended on and another row. -/
def gapAfter (ended : Option Nat) (row : Nat) : Option Bool := ended.map fun e => e + 1 < row

/-- Cuts a list of comments, the last one first, where the run ends that reaches to a row. -/
def splitRun (row : Nat) : List PlacedComment → List PlacedComment × List PlacedComment
  | [] => ([], [])
  | c :: rest =>
    if row ≤ c.lastRow + 1 then
      let (run, others) := splitRun c.firstRow rest
      (c :: run, others)
    else ([], c :: rest)

/-- The row that the last of some comments ends on, or else the row before. -/
def endRow (ended : Option Nat) (comments : List PlacedComment) : Option Nat :=
  match comments.getLast? with
  | some c => some c.lastRow
  | none => ended

/-- Comments that stand on their own, after what ended on a row. -/
def standalone (ended : Option Nat) : List PlacedComment → List (Group α)
  | [] => []
  | c :: rest =>
    { main := .inl c, blankBefore := gapAfter ended c.firstRow } :: standalone (some c.lastRow) rest

/-- Does the comment trail what ends on a row? -/
def PlacedComment.trails (c : PlacedComment) (row : Nat) : Bool :=
  c.firstRow == row && !c.comment.text.any (· == '\n')

/-- Groups siblings after what ended on a row; `pending` are the comments since, the last one
first. -/
def groupsFrom (ended : Option Nat) (pending : List PlacedComment) :
    List (Sibling α) → List (Group α)
  | [] => standalone ended pending.reverse
  | .comment c :: rest => groupsFrom ended (c :: pending) rest
  | .item firstRow lastRow value :: rest =>
    let (run, others) := splitRun firstRow pending
    let alone := others.reverse
    let leading := run.reverse
    let start := (leading.head?.map (·.firstRow)).getD firstRow
    let group (trailing : Option PlacedComment) : Group α :=
      { leading, main := .inr value, trailing, blankBefore := gapAfter (endRow ended alone) start }
    match rest with
    | .comment c :: rest' =>
      if c.trails lastRow then
        standalone ended alone ++ group (some c) :: groupsFrom (some lastRow) [] rest'
      else standalone ended alone ++ group none :: groupsFrom (some lastRow) [] (.comment c :: rest')
    | .item r s v :: rest' =>
      standalone ended alone ++ group none :: groupsFrom (some lastRow) [] (.item r s v :: rest')
    | [] => standalone ended alone ++ [group none]

/-- Siblings grouped with their comments. -/
def groups (siblings : List (Sibling α)) : List (Group α) := groupsFrom none [] siblings

end ApiRoutes.Script
