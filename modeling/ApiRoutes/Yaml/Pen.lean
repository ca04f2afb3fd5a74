import ApiRoutes.Text
/-!
# Laying out lines

A pen writes a text from left to right and knows its column, so that blanks, line breaks and long
lines come out right.
-/
namespace ApiRoutes.Yaml

/-- What has been written, and where the pen is. -/
structure Pen where
  /-- The written code points, the last one first. -/
  written : Text := []
  column : Nat := 0
  /-- The pen is at the start of a line or behind white space. -/
  isApart : Bool := true
  /-- Nothing but marks of a block stands on the line. -/
  isInMargin : Bool := true

namespace Pen

def width : Nat := 80

def text (p : Pen) : Text := p.written.reverse

def write (t : Text) (p : Pen) : Pen :=
  { p with written := t.reverse ++ p.written, column := p.column + t.length }

def breakLine (lineBreak : CodePoint) (p : Pen) : Pen :=
  { written := lineBreak :: p.written, column := 0, isApart := true, isInMargin := true }

/-- Writes a mark, apart from what stands before it. -/
def mark (t : Text) (p : Pen) : Pen :=
  { (if p.isApart then p else p.write " ").write t with isApart := false, isInMargin := false }

/-- Writes a mark of a block, which leaves the pen in the margin. -/
def blockMark (t : Text) (p : Pen) : Pen := { p.mark t with isInMargin := p.isInMargin }

def closeMark (t : Text) (p : Pen) : Pen := { p.write t with isApart := false, isInMargin := false }

/-- Moves to a column, on a new line unless nothing stands there yet. -/
def moveTo (column : Nat) (p : Pen) : Pen :=
  let p :=
    if !p.isInMargin || column < p.column || (p.column == column && !p.isApart) then
      p.breakLine '\n'
    else p
  if p.column < column then { p.write (Text.blanks (column - p.column)) with isApart := true } else p

def fold (column : Nat) (p : Pen) : Pen :=
  { p.moveTo column with isApart := false, isInMargin := false }

end Pen

end ApiRoutes.Yaml
