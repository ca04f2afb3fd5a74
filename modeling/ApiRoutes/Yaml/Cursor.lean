import ApiRoutes.Text.Display
import ApiRoutes.Yaml.Fault
/-!
# Places in a YAML text

A cursor is a place in a text: what follows it, and its line and column, both from 0.  Besides line
feed and carriage return three more characters end a line, and a byte order mark takes no column.
-/
namespace ApiRoutes.Yaml

def isBreak (c : Char) : Bool :=
  c == '\n' || c == '\r' || c == '\u0085' || c == '\u2028' || c == '\u2029'

def endsLine : Option Char → Bool
  | none => true
  | some c => isBreak c

/-- Is this a blank, or the end of the text or of a line? -/
def endsWord : Option Char → Bool
  | some ' ' => true
  | c => endsLine c

/-- Is this a blank, a tab, or the end of the text or of a line? -/
def endsToken : Option Char → Bool
  | some '\t' => true
  | c => endsWord c

def isOneOf (cs : String) (c : Char) : Bool := cs.toList.contains c

/-- A place in a text. -/
structure Cursor where
  /-- What follows. -/
  rest : List Char
  /-- How many characters precede. -/
  index : Nat := 0
  line : Nat := 0
  column : Nat := 0
  deriving Inhabited

namespace Cursor

def next (c : Cursor) : Cursor :=
  match c.rest with
  | [] => c
  | x :: rest =>
    if isBreak x && !(x == '\r' && rest.head? == some '\n') then
      ⟨rest, c.index + 1, c.line + 1, 0⟩
    else ⟨rest, c.index + 1, c.line, if x == '\uFEFF' then c.column else c.column + 1⟩

/-- The place after `n` more characters. -/
def skip : Nat → Cursor → Cursor
  | 0, c => c
  | n + 1, c => skip n c.next

def peek? (c : Cursor) (n : Nat) : Option Char := c.rest[n]?

def head? (c : Cursor) : Option Char := c.rest.head?

def sees (c : Cursor) (x : Char) : Bool := c.rest.head? == some x

/-- Does the next character satisfy `p`? -/
def meets (c : Cursor) (p : Char → Bool) : Bool := c.rest.head?.any p

/-- The characters ahead that satisfy `p`, and the place after them. -/
def takeWhile (p : Char → Bool) (c : Cursor) : List Char × Cursor :=
  let cs := c.rest.takeWhile p
  (cs, c.skip cs.length)

/-- The place before the first character that does not satisfy `p`. -/
def skipWhile (p : Char → Bool) (c : Cursor) : Cursor := (c.takeWhile p).2

def skipBlanks (c : Cursor) : Cursor := c.skipWhile (· == ' ')

def skipLine (c : Cursor) : Cursor := c.skipWhile (!isBreak ·)

/-- The place after a comment, when one follows. -/
def skipComment (c : Cursor) : Cursor := if c.sees '#' then c.skipLine else c

/-- The line break that follows, as it counts in a text, and the place after it.  Carriage returns
and next-line controls count as line feeds. -/
def takeBreak (c : Cursor) : List Char × Cursor :=
  match c.rest with
  | '\r' :: '\n' :: _ => (['\n'], c.skip 2)
  | x :: _ =>
    if x == '\r' || x == '\n' || x == '\u0085' then (['\n'], c.next)
    else if isBreak x then ([x], c.next)
    else ([], c)
  | [] => ([], c)

def atDocumentMark (c : Cursor) : Bool :=
  (c.rest.take 3 == ['-', '-', '-'] || c.rest.take 3 == ['.', '.', '.']) && endsToken (c.peek? 3)

/-- The next character as messages show it; the end of the text shows as the null character. -/
def display (c : Option Char) : Text := Text.display [.scalar (c.getD '\x00')]

def broken {α : Type} (c : Cursor) (context : Option String) (problem : Text) : Except Fault α :=
  .error (.broken (context.map Text.ofString) problem c.line)

def unexpected {α : Type} (c : Cursor) (context expected : String) (found : Option Char) :
    Except Fault α :=
  c.broken (some context) ("expected " ++ expected ++ ", but found " ++ display found)

end Cursor

end ApiRoutes.Yaml
