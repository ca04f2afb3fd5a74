import ApiRoutes.Text
import ApiRoutes.Text.Difference
/-!
# Patches

The difference of two texts as people read it: hunks of changed lines with three lines around them.
-/
namespace ApiRoutes.Patch

/-! ## Lines -/

/-- Does the character end a line?  Besides line feed and carriage return there are the vertical
tab, the form feed, three information separators, the next-line control and the two separators of
Unicode. -/
def endsLine (c : CodePoint) : Bool :=
  c.holds fun c => c ∈ ['\n', '\r', '\x0b', '\x0c', '\x1c', '\x1d', '\x1e', '\u0085', '\u2028', '\u2029']

/-- A code point at the front of the first line. -/
def prolong (c : CodePoint) : List Text → List Text
  | [] => [[c]]
  | l :: ls => (c :: l) :: ls

/-- The lines of a text with their endings; carriage return and line feed end one line together. -/
def linesOf : Text → List Text
  | [] => []
  | .scalar '\r' :: .scalar '\n' :: rest => [.scalar '\r', .scalar '\n'] :: linesOf rest
  | c :: rest => if endsLine c then [c] :: linesOf rest else prolong c (linesOf rest)

/-! ## Hunks -/

def context : Nat := 3

/-- Changes that stand close together, with the lines around them. -/
structure Hunk where
  /-- How many lines of the old text stand before. -/
  old : Nat
  /-- How many lines of the new text stand before. -/
  new : Nat
  pieces : List (Piece Text)

def oldSize (ps : List (Piece Text)) : Nat := ps.foldl (fun n p => n + p.old.length) 0

def newSize (ps : List (Piece Text)) : Nat := ps.foldl (fun n p => n + p.new.length) 0

def Hunk.add (h : Hunk) (p : Piece Text) : Hunk := { h with pieces := h.pieces ++ [p] }

/-- Hunks of pieces that follow a hunk in the making.  Long common pieces end it and start the
next. -/
def hunksFrom (h : Hunk) : List (Piece Text) → List Hunk
  | [] => [h]
  | [.same lines] => [h.add (.same (lines.take context))]
  | .same lines :: rest =>
    if 2 * context < lines.length then
      let left := lines.length - context
      h.add (.same (lines.take context)) ::
        hunksFrom ⟨h.old + oldSize h.pieces + left, h.new + newSize h.pieces + left,
          [.same (lines.drop left)]⟩ rest
    else hunksFrom (h.add (.same lines)) rest
  | p :: rest => hunksFrom (h.add p) rest

/-- The hunks of the pieces of two texts. -/
def hunks : List (Piece Text) → List Hunk
  | [] => []
  | [.same _] => []
  | .same lines :: rest =>
    let left := lines.length - context
    hunksFrom ⟨left, left, [.same (lines.drop left)]⟩ rest
  | ps => hunksFrom ⟨0, 0, []⟩ ps

/-! ## Text -/

/-- Which lines of a text a hunk is about. -/
def rangeText (before size : Nat) : Text :=
  match size with
  | 0 => Text.ofNat before ++ ",0"
  | 1 => Text.ofNat (before + 1)
  | n => Text.ofNat (before + 1) ++ "," ++ Text.ofNat n

/-- Lines, each after a mark. -/
def marked (mark : Char) (lines : List Text) : Text := lines.flatMap fun l => .scalar mark :: l

/-- A piece with the marks of its lines. -/
def pieceText : Piece Text → Text
  | .same lines => marked ' ' lines
  | .changed old new => marked '-' old ++ marked '+' new

def Hunk.text (h : Hunk) : Text :=
  "@@ -" ++ rangeText h.old (oldSize h.pieces) ++ " +" ++ rangeText h.new (newSize h.pieces) ++
    " @@\n" ++ h.pieces.flatMap pieceText

/-- The patch that leads from one text to another, under the names of both; nothing when they are
equal. -/
def render (oldName newName old new : Text) : Text :=
  match hunks (difference (linesOf old) (linesOf new)) with
  | [] => []
  | hs => "--- " ++ oldName ++ "\n+++ " ++ newName ++ "\n" ++ hs.flatMap Hunk.text

end ApiRoutes.Patch
