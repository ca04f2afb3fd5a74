import ApiRoutes.Yaml.Lexeme
/-!
# Quoted and plain scalars

Scalars that may go on over several lines, whose line breaks are folded: a single one becomes a
blank, and of several the first is dropped.
-/
namespace ApiRoutes.Yaml

/-! ## Quoted scalars -/

namespace Quoted

def letterEscape? (c : Char) : Option Char :=
  match c with
  | '0' => some '\x00'
  | 'a' => some '\x07'
  | 'b' => some '\x08'
  | 't' => some '\t'
  | '\t' => some '\t'
  | 'n' => some '\n'
  | 'v' => some '\x0b'
  | 'f' => some '\x0c'
  | 'r' => some '\r'
  | 'e' => some '\x1b'
  | ' ' => some ' '
  | '"' => some '"'
  | '\\' => some '\\'
  | '/' => some '/'
  | 'N' => some '\u0085'
  | '_' => some '\u00a0'
  | 'L' => some '\u2028'
  | 'P' => some '\u2029'
  | _ => none

def escapeLength? (c : Char) : Option Nat :=
  match c with
  | 'x' => some 2
  | 'u' => some 4
  | 'U' => some 8
  | _ => none

def escapeContext : String := "while scanning a double-quoted scalar"

def context : String := "while scanning a quoted scalar"

def codePointOf (n : Nat) : Except Fault CodePoint :=
  match CodePoint.ofNat? n with
  | some c => .ok c
  | none => .error (.scalar (if n < 0x80000000 then .noCodePoint else .hugeCodePoint))

def isSpace (c : Char) : Bool := c == ' ' || c == '\t'

/-- The line breaks ahead with the white space around them.  Here and below `fuel` is greater than
the number of characters ahead. -/
def scanBreaks (fuel : Nat) (c : Cursor) : Except Fault (Text × Cursor) := do
  match fuel with
  | 0 => return ([], c)
  | n + 1 =>
    if c.atDocumentMark then
      c.broken (some context) "found unexpected document separator"
    else
      let c := c.skipWhile isSpace
      if c.meets isBreak then
        let (b, after) := c.takeBreak
        let (bs, after) ← scanBreaks n after
        return (Text.ofChars b ++ bs, after)
      else return ([], c)

def scanEscape (fuel : Nat) (c : Cursor) : Except Fault (Text × Cursor) := do
  match c.head? with
  | none => c.broken (some escapeContext) ("found unknown escape character " ++ Cursor.display none)
  | some x =>
    match letterEscape? x, escapeLength? x with
    | some y, _ => return ([.scalar y], c.next)
    | none, some n =>
      let c := c.next
      let ds := (c.rest.take n).takeWhile isHex
      if ds.length < n then
        c.unexpected escapeContext
          ("escape sequence of " ++ toString n ++ " hexadecimal numbers") (c.peek? ds.length)
      else
        return ([← codePointOf (hexNumber ds)], c.skip n)
    | none, none =>
      if isBreak x then
        let after := c.takeBreak.2
        scanBreaks fuel after
      else c.broken (some escapeContext) ("found unknown escape character " ++ Cursor.display (some x))

/-- The white space ahead, folded when it holds a line break. -/
def scanSpaces (fuel : Nat) (c : Cursor) : Except Fault (Text × Cursor) := do
  let (spaces, after) := c.takeWhile isSpace
  match after.head? with
  | none => after.broken (some context) "found unexpected end of stream"
  | some x =>
    if isBreak x then
      let (b, after) := after.takeBreak
      let (bs, after) ← scanBreaks fuel after
      let fold : Text := if b != ['\n'] then Text.ofChars b else if bs.isEmpty then " " else []
      return (fold ++ bs, after)
    else return (Text.ofChars spaces, after)

def isSpecial (c : Char) : Bool := isBreak c || isOneOf "'\"\\ \t" c

/-- Reads a quoted scalar after its opening quote, with the closing one. -/
def scanFrom (double : Bool) (fuel : Nat) (c : Cursor) : Except Fault (Text × Cursor) := do
  match fuel with
  | 0 => c.broken (some context) "found unexpected end of stream"
  | n + 1 =>
    let quote := if double then '"' else '\''
    let (cs, c) := c.takeWhile (!isSpecial ·)
    let (t, after) ←
      if !double && c.sees '\'' && c.peek? 1 == some '\'' then pure (([.scalar '\''] : Text), c.skip 2)
      else if c.sees quote then return (Text.ofChars cs, c.next)
      else if double && c.sees '\\' then scanEscape n c.next
      else if c.meets (isOneOf "'\"\\") then pure (Text.ofChars (c.rest.take 1), c.next)
      else scanSpaces n c
    let (rest, last) ← scanFrom double n after
    return (Text.ofChars cs ++ t ++ rest, last)

end Quoted

/-! ## Plain scalars -/

namespace Plain

/-- The white space of a plain scalar and the place after it.  `none` stands for the mark of a
document, before which the scalar ends. -/
def takeBreaks (fuel : Nat) (c : Cursor) : Option (List Char) × Cursor :=
  match fuel with
  | 0 => (some [], c)
  | n + 1 =>
    if c.sees ' ' then takeBreaks n c.next
    else if c.meets isBreak then
      let (b, after) := c.takeBreak
      if after.atDocumentMark then (none, after)
      else
        let (bs, after) := takeBreaks n after
        (bs.map (b ++ ·), after)
    else (some [], c)

/-- What stands between two stretches of a plain scalar, whether there is a line break in it, and
the place after it. -/
def takeSpaces (fuel : Nat) (c : Cursor) : List Char × Bool × Cursor :=
  let (blanks, c) := c.takeWhile (· == ' ')
  if c.meets isBreak then
    let (b, after) := c.takeBreak
    if after.atDocumentMark then ([], true, after)
    else
      match takeBreaks fuel after with
      | (none, after) => ([], true, after)
      | (some bs, after) =>
        ((if b != ['\n'] then b else if bs.isEmpty then [' '] else []) ++ bs, true, after)
  else (blanks, false, c)

def stretch (inFlow : Bool) : List Char → Nat
  | [] => 0
  | x :: rest =>
    let ends :=
      endsToken (some x) ||
      (x == ':' && (endsToken rest.head? || (inFlow && rest.head?.any (isOneOf ",[]\x7b\x7d")))) ||
      (inFlow && isOneOf ",?[]\x7b\x7d" x)
    if ends then 0 else stretch inFlow rest + 1

/-- Reads a plain scalar.  It ends before a line that is not indented by `column`, except in a flow
collection.  The second result says whether a line break was the last thing read. -/
def scan (inFlow : Bool) (column : Int) (fuel : Nat) (c : Cursor) : List Char × Bool × Cursor :=
  match fuel with
  | 0 => ([], false, c)
  | n + 1 =>
    let size := if c.sees '#' then 0 else stretch inFlow c.rest
    let text := c.rest.take size
    let (spaces, broke, after) := takeSpaces n (c.skip size)
    let goesOn := !spaces.isEmpty && !after.sees '#' && (inFlow || column ≤ after.column) &&
      0 < stretch inFlow after.rest
    if goesOn then
      let (more, broke, last) := scan inFlow column n after
      (text ++ spaces ++ more, broke, last)
    else (text, broke, after)

end Plain

end ApiRoutes.Yaml
