import ApiRoutes.Yaml.Pen
import ApiRoutes.Yaml.Tag
/-!
# Writing scalars

Which style a text is written in, and how: plain where it would read back as itself, else in single
quotes, and in double quotes where only escapes help.
-/
namespace ApiRoutes.Yaml

/-! ## Which styles are possible -/

/-- Is this a line break inside of a text?  Carriage returns are none: they are always escaped. -/
def isTextBreak (c : CodePoint) : Bool := c == '\n' || c == '\u0085' || c == '\u2028' || c == '\u2029'

def isTextSpace : Option CodePoint → Bool
  | none => true
  | some c => isTextBreak c || c == ' ' || c == '\t' || c == '\r' || c == '\x00'

def isPrintable (c : CodePoint) : Bool :=
  let n := c.val
  c == '\n' || (0x20 ≤ n && n ≤ 0x7E) || c == '\u0085' || (0xA0 ≤ n && n ≤ 0xD7FF) ||
    (0xE000 ≤ n && n ≤ 0xFFFD && n != 0xFEFF) || (0x10000 ≤ n && n < 0x10FFFF)

def isAmong (cs : String) (c : CodePoint) : Bool := c.holds fun c => cs.toList.contains c

def startsLikeMark : Text → Bool
  | [] => false
  | c :: rest =>
    isAmong "#,[]\x7b\x7d&*!|>'\"%@\x60" c || (isAmong "-?:" c && isTextSpace rest.head?) ||
      Text.startsWith (c :: rest) "---" || Text.startsWith (c :: rest) "..."

/-- Would something in a text after `previous` be read as something else than text: a colon before a
blank, or a comment? -/
def holdsMark (previous : CodePoint) : Text → Bool
  | [] => false
  | c :: rest =>
    (c == ':' && isTextSpace rest.head?) || (c == '#' && isTextSpace (some previous)) ||
      holdsMark c rest

/-- Does a text hold one code point of a kind and right behind it one of another? -/
def holdsPair (p q : CodePoint → Bool) : Text → Bool
  | a :: b :: rest => (p a && q b) || holdsPair p q (b :: rest)
  | _ => false

def isBlank (c : CodePoint) : Bool := c == ' '

def isMultiline (t : Text) : Bool := t.any isTextBreak

def hasLooseEnd (t : Text) : Bool :=
  let isLoose (c : CodePoint) : Bool := isBlank c || isTextBreak c
  t.head?.any isLoose || t.getLast?.any isLoose

/-- Can a text be written in single quotes?  Blanks next to a line break and code points that need an
escape rule it out. -/
def allowsSingleQuotes (t : Text) : Bool :=
  t.all isPrintable && !holdsPair isBlank isTextBreak t && !holdsPair isTextBreak isBlank t

def allowsPlain (t : Text) : Bool :=
  match t with
  | [] => true
  | c :: rest =>
    allowsSingleQuotes t && !isMultiline t && !hasLooseEnd t && !startsLikeMark t &&
      !holdsMark c rest

/-! ## Writing in a style -/

/-- Runs of code points of which all or none satisfy `p`. -/
def runs (p : CodePoint → Bool) : Text → List Text
  | [] => []
  | c :: rest =>
    match runs p rest with
    | (d :: run) :: others => if p c == p d then (c :: d :: run) :: others else [c] :: (d :: run) :: others
    | others => [c] :: others

/-- Writes a run of blanks or of other characters; a single blank on a long line becomes a break. -/
def writeRun (splits : Bool) (column : Nat) (p : Pen) (run : Text) : Pen :=
  if run == [.scalar ' '] && Pen.width < p.column && splits then p.fold column else p.write run

def writePlain (splits : Bool) (column : Nat) (t : Text) (p : Pen) : Pen :=
  if t.isEmpty then p
  else
    let p := if p.isApart then p else p.write " "
    (runs isBlank t).foldl (writeRun splits column) { p with isApart := false, isInMargin := false }

/-- Writes line breaks inside of single quotes: one more than there are, as one is folded away. -/
def writeBreaks (column : Nat) (breaks : Text) (p : Pen) : Pen :=
  let p := if breaks.head? == some (.scalar '\n') then p.breakLine '\n' else p
  (breaks.foldl (fun p b => p.breakLine b) p).moveTo column

/-- Writes the runs of a text in single quotes.  Blanks at either end never become a break. -/
def writeQuotedRuns (splits : Bool) (column : Nat) (isFirst : Bool) (p : Pen) : List Text → Pen
  | [] => p
  | run :: rest =>
    let p :=
      if run.any isTextBreak then writeBreaks column run p
      else if run == [.scalar ' '] && Pen.width < p.column && splits && !isFirst && !rest.isEmpty then
        p.moveTo column
      else p.write (run.flatMap fun (c : CodePoint) => if c == '\'' then [c, c] else [c])
    writeQuotedRuns splits column false p rest

def writeSingleQuoted (splits : Bool) (column : Nat) (t : Text) (p : Pen) : Pen :=
  let parts := (runs isBlank t).flatMap (runs isTextBreak)
  (writeQuotedRuns splits column true (p.mark "'") parts).closeMark "'"

def escapeLetter? (c : CodePoint) : Option Char :=
  match c with
  | '\x00' => some '0'
  | '\x07' => some 'a'
  | '\x08' => some 'b'
  | '\t' => some 't'
  | '\n' => some 'n'
  | '\x0b' => some 'v'
  | '\x0c' => some 'f'
  | '\r' => some 'r'
  | '\x1b' => some 'e'
  | '"' => some '"'
  | '\\' => some '\\'
  | '\u0085' => some 'N'
  | '\u2028' => some 'L'
  | '\u2029' => some 'P'
  | _ => none

/-- The escape of a code point in double quotes, when it needs one. -/
def escape? (c : CodePoint) : Option Text :=
  let n := c.val
  if (0x20 ≤ n && n ≤ 0x7E && n != 0x22 && n != 0x5C) ||
      (0xA0 ≤ n && n ≤ 0xFFFD && !(0xD800 ≤ n && n < 0xE000) && n != 0x2028 && n != 0x2029 &&
        n != 0xFEFF) then
    none
  else match escapeLetter? c with
    | some l => some [.scalar '\\', .scalar l]
    | none =>
      let upper (t : Text) : Text := t.map (CodePoint.mapChar Char.toUpper)
      some (if n < 0x100 then "\\x" ++ upper (Text.hex 2 n)
        else if n < 0x10000 then "\\u" ++ upper (Text.hex 4 n)
        else "\\U" ++ upper (Text.hex 8 n))

/-- Writes the inside of double quotes.  `waiting` are the code points that are not written yet, the
last one first.  A long line is broken before a blank or next to an escape, but not at the ends of
the text. -/
def writeEscaped (splits : Bool) (column : Nat) (isFirst : Bool) (waiting : Text) (p : Pen) :
    Text → Pen
  | [] => p.write waiting.reverse
  | c :: rest =>
    let escape := escape? c
    let (p, waiting) := match escape with
      | some e => ((p.write waiting.reverse).write e, [])
      | none => (p, waiting)
    let reach : Int := if escape.isSome then p.column - 1 else p.column + waiting.length
    let breaks := splits && !isFirst && !rest.isEmpty && (c == ' ' || waiting.isEmpty) &&
      (Pen.width : Int) < reach
    let next := if escape.isSome then rest.head? else some c
    let (p, waiting) :=
      if breaks then
        let p := ((p.write waiting.reverse).write "\\").fold column
        (if next == some (.scalar ' ') then p.write "\\" else p, [])
      else (p, waiting)
    writeEscaped splits column false (if escape.isSome then waiting else c :: waiting) p rest

def writeDoubleQuoted (splits : Bool) (column : Nat) (t : Text) (p : Pen) : Pen :=
  (writeEscaped splits column true [] (p.mark "\"") t).closeMark "\""

def writeLiteral (column : Nat) (lines : List Text) (p : Pen) : Pen :=
  lines.foldl (fun p line => ((p.moveTo column).write line).breakLine '\n')
    ((p.mark "|").breakLine '\n')

/-- Writes a scalar whose tag is the one of its spelling, or that is a text.  A key on one line is
never split. -/
def writeScalar (isKey isOwnSpelling : Bool) (column : Nat) (t : Text) (p : Pen) : Pen :=
  if isOwnSpelling && allowsPlain t && !(isKey && (t.isEmpty || isMultiline t)) then
    writePlain (!isKey) column t p
  else if allowsSingleQuotes t && !(isKey && isMultiline t) then
    writeSingleQuoted (!isKey) column t p
  else writeDoubleQuoted (!isKey) column t p

end ApiRoutes.Yaml
