/-!
# Differences between lists

The difference of two lists as a list of pieces, which either stand in both or are replaced by one
another (`difference`).  It is found by taking out a longest common run and going on to the left and
to the right of it; items that occur very often in a long list start no run, but prolong one.
-/
namespace ApiRoutes

/-- A piece of two lists: items of both, or items of one in the place of items of the other. -/
inductive Piece (α : Type) where
  | same (items : List α)
  | changed (old new : List α)
  deriving DecidableEq

namespace Piece

variable {α : Type}

def old : Piece α → List α
  | .same items => items
  | .changed old _ => old

def new : Piece α → List α
  | .same items => items
  | .changed _ new => new

end Piece

namespace Difference

variable {α : Type} [DecidableEq α]

/-- Items that two lists have in common in a row: where these start in each, and how many. -/
structure Run where
  old : Nat
  new : Nat
  size : Nat

def Run.IsIn (r : Run) (old new : List α) : Prop :=
  0 < r.size ∧ r.old + r.size ≤ old.length ∧
    (old.drop r.old).take r.size = (new.drop r.new).take r.size

instance (r : Run) (old new : List α) : Decidable (r.IsIn old new) :=
  inferInstanceAs (Decidable (_ ∧ _ ∧ _))

/-- The sizes of the runs that end at an item and at each item of a list, from those that end at the
item before it; `corner` is that of the run that ends before both. -/
def nextRow (item : α) (corner : Nat) : List α → List Nat → List Nat
  | [], _ | _, [] => []
  | x :: xs, above :: row => (if x = item then corner + 1 else 0) :: nextRow item above xs row

/-- The longer of the best run so far and the runs of a row, the first of equals.  The row ends at
`i` of the old list and starts at `j` of the new one. -/
def bestOfRow (i j : Nat) (best : Run) : List Nat → Run
  | [] => best
  | size :: row =>
    let best := if best.size < size then ⟨i + 1 - size, j + 1 - size, size⟩ else best
    bestOfRow i (j + 1) best row

/-- The longest run, row by row; items that are too common end none. -/
def longestFrom (common : α → Bool) (new : List α) (i : Nat) (row : List Nat) (best : Run) :
    List α → Run
  | [] => best
  | x :: old =>
    let row := if common x then row.map fun _ => 0 else nextRow x 0 new row
    longestFrom common new (i + 1) row (bestOfRow i 0 best row) old

/-- How many items two lists start with in common. -/
def commonStart : List α → List α → Nat
  | x :: xs, y :: ys => if x = y then commonStart xs ys + 1 else 0
  | _, _ => 0

/-- A run prolonged in both directions as far as the items are equal. -/
def Run.prolong (r : Run) (old new : List α) : Run :=
  let back := commonStart (old.take r.old).reverse (new.take r.new).reverse
  let ahead := commonStart (old.drop (r.old + r.size)) (new.drop (r.new + r.size))
  ⟨r.old - back, r.new - back, back + r.size + ahead⟩

def longestRun (common : α → Bool) (old new : List α) : Run :=
  (longestFrom common new 0 (new.map fun _ => 0) ⟨0, 0, 0⟩ old).prolong old new

def commonRun? (common : α → Bool) (old new : List α) : Option { r : Run // r.IsIn old new } :=
  let r := longestRun common old new
  if h : r.IsIn old new then some ⟨r, h⟩ else none

/-- What is left of two lists beside the runs. -/
def gap (old new : List α) : List (Piece α) :=
  if old.isEmpty && new.isEmpty then [] else [.changed old new]

/-- The pieces of two lists. -/
def pieces (common : α → Bool) (old new : List α) : List (Piece α) :=
  match commonRun? common old new with
  | none => gap old new
  | some ⟨r, _h⟩ =>
    pieces common (old.take r.old) (new.take r.new) ++
      .same ((old.drop r.old).take r.size) ::
        pieces common (old.drop (r.old + r.size)) (new.drop (r.new + r.size))
termination_by old.length
decreasing_by all_goals (obtain ⟨_, _, _⟩ := _h; simp only [List.length_take, List.length_drop]; omega)

def joinSame : List (Piece α) → List (Piece α)
  | [] => []
  | .same xs :: rest =>
    match joinSame rest with
    | .same ys :: rest => .same (xs ++ ys) :: rest
    | rest => .same xs :: rest
  | p :: rest => p :: joinSame rest

/-- From this many items on, a list can have items that are too common. -/
def longList : Nat := 200

/-- Is an item too common in a list?  It is when it makes up more than one item in a hundred. -/
def isCommonIn (items : List α) (x : α) : Bool :=
  longList ≤ items.length && items.length / 100 + 1 < items.count x

end Difference

def difference {α : Type} [DecidableEq α] (old new : List α) : List (Piece α) :=
  Difference.joinSame (Difference.pieces (Difference.isCommonIn new) old new)

end ApiRoutes
