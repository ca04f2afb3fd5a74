import ApiRoutes.Yaml.Lexeme
/-!
# Block scalars

Scalars whose lines are set off by their indentation: literal ones keep their line breaks, folded
ones join lines of text.
-/
namespace ApiRoutes.Yaml

/-- What happens to the line breaks at the end of a block scalar. -/
inductive Chomping where
  | clip | strip | keep
  deriving DecidableEq

namespace Block

def context : String := "while scanning a block scalar"

def takeChomping (c : Cursor) : Option Chomping × Cursor :=
  if c.sees '+' then (some .keep, c.next)
  else if c.sees '-' then (some .strip, c.next)
  else (none, c)

def takeIncrement (c : Cursor) : Except Fault (Option Nat × Cursor) :=
  match c.head? with
  | some '0' =>
    c.broken (some context) "expected indentation indicator in the range 1-9, but found 0"
  | some d => .ok (if d.isDigit then (some (d.toNat - 48), c.next) else (none, c))
  | none => .ok (none, c)

/-- Reads the marks of the first line, in either order, with the end of that line. -/
def scanHead (c : Cursor) : Except Fault (Chomping × Option Nat × Cursor) := do
  let (first, after) := takeChomping c
  let (increment, after) ← takeIncrement after
  let (second, after) := if first.isNone && increment.isSome then takeChomping after else (none, after)
  if !endsWord after.head? then
    after.unexpected context "chomping or indentation indicators" after.head?
  else
    return ((first.or second).getD .clip, increment, ← scanLineEnd context after)

/-- The empty lines at the start of a scalar, and how far the furthest blank stands. -/
def takeIndentation (fuel : Nat) (furthest : Nat) (c : Cursor) : List Char × Nat × Cursor :=
  match fuel with
  | 0 => ([], furthest, c)
  | n + 1 =>
    if c.sees ' ' then takeIndentation n (max furthest c.next.column) c.next
    else if c.meets isBreak then
      let (b, after) := c.takeBreak
      let (bs, furthest, after) := takeIndentation n furthest after
      (b ++ bs, furthest, after)
    else ([], furthest, c)

def skipIndent (column : Nat) (c : Cursor) : Cursor :=
  c.skip ((c.rest.take (column - c.column)).takeWhile (· == ' ')).length

def takeBreaks (column fuel : Nat) (c : Cursor) : List Char × Cursor :=
  let c := skipIndent column c
  match fuel with
  | 0 => ([], c)
  | n + 1 =>
    if c.meets isBreak then
      let (b, after) := c.takeBreak
      let (bs, after) := takeBreaks column n after
      (b ++ bs, after)
    else ([], c)

def isSpace (c : Char) : Bool := c == ' ' || c == '\t'

/-- Reads the lines of a scalar from `breaks`, the empty lines before the first, on. -/
def scanLines (isFolded : Bool) (chomping : Chomping) (column fuel : Nat) (breaks : List Char)
    (c : Cursor) : List Char × Cursor :=
  match fuel with
  | 0 => ([], c)
  | n + 1 =>
    let startsWithText := !c.meets isSpace
    let (line, after) := c.takeWhile (!isBreak ·)
    let (lineBreak, after) := after.takeBreak
    let (more, after) := takeBreaks column n after
    if after.column == column && !after.rest.isEmpty then
      let joint :=
        if isFolded && lineBreak == ['\n'] && startsWithText && !after.meets isSpace then
          if more.isEmpty then [' '] else []
        else lineBreak
      let (lines, last) := scanLines isFolded chomping column n more after
      (breaks ++ line ++ joint ++ lines, last)
    else
      let tail := match chomping with
        | .strip => []
        | .clip => lineBreak
        | .keep => lineBreak ++ more
      (breaks ++ line ++ tail, after)

/-- Reads a block scalar at its mark, inside of a block that is indented by `indent`.  Here and
below `fuel` is no less than the number of characters ahead. -/
def scan (isFolded : Bool) (indent : Int) (fuel : Nat) (c : Cursor) :
    Except Fault (TokenKind × Cursor) := do
  let (chomping, increment, c) ← scanHead c.next
  let least := (max (indent + 1) 1).toNat
  let (breaks, column, c) := match increment with
    | some n =>
      let column := least + n - 1
      let (breaks, c) := takeBreaks column fuel c
      (breaks, column, c)
    | none =>
      let (breaks, furthest, c) := takeIndentation fuel 0 c
      (breaks, max least furthest, c)
  let (text, after) :=
    if c.column == column && !c.rest.isEmpty then
      scanLines isFolded chomping column fuel breaks c
    else (if chomping == .keep then breaks else [], c)
  return (.scalar (Text.ofChars text) (if isFolded then .folded else .literal), after)

end Block

end ApiRoutes.Yaml
