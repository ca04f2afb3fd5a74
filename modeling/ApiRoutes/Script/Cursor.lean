import ApiRoutes.Text
/-!
# Places in a source

A cursor is a place in a source text: what follows it, the line that it is on, and the indentation
of that line.  Rows are counted by line feeds alone.
-/
namespace ApiRoutes.Script

/-- A place in a source. -/
structure Cursor where
  /-- What follows. -/
  rest : List Char
  /-- How many characters precede. -/
  offset : Nat := 0
  /-- How many line feeds precede. -/
  row : Nat := 0
  /-- The blanks and tabs at the start of the line, as far as the cursor. -/
  margin : Nat := 0
  /-- Nothing but blanks and tabs stands before the cursor on its line. -/
  inMargin : Bool := true
  deriving Inhabited

namespace Cursor

def ofSource (source : List Char) : Cursor := { rest := source }

def next (c : Cursor) : Cursor :=
  match c.rest with
  | [] => c
  | ch :: rest =>
    if ch = '\n' then { rest, offset := c.offset + 1, row := c.row + 1 }
    else
      let inMargin := c.inMargin && (ch == ' ' || ch == '\t')
      { rest, offset := c.offset + 1, row := c.row, inMargin
        margin := if inMargin then c.margin + 1 else c.margin }

/-- The place after `n` more characters. -/
def skip : Nat → Cursor → Cursor
  | 0, c => c
  | n + 1, c => skip n c.next

/-- The place before the first character that does not satisfy `p`. -/
def skipWhile (p : Char → Bool) (c : Cursor) : Cursor := c.skip (c.rest.takeWhile p).length

def at? (c : Cursor) (word : String) : Bool := word.toList.isPrefixOf c.rest

def peek? (c : Cursor) : Option Char := c.rest.head?

def sees (c : Cursor) (ch : Char) : Bool := c.rest.head? == some ch

def atEnd (c : Cursor) : Bool := c.rest.isEmpty

end Cursor

/-- A stretch of a source. -/
structure Span where
  start : Cursor
  stop : Cursor
  deriving Inhabited

namespace Span

def chars (s : Span) : List Char := s.start.rest.take (s.stop.offset - s.start.offset)

def text (s : Span) : Text := Text.ofChars s.chars

def isMultiline (s : Span) : Bool := s.start.row != s.stop.row

end Span

end ApiRoutes.Script
