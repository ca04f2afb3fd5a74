import ApiRoutes.Script.Concrete
/-!
# White space, comments and unmarked statement ends

What may stand between two tokens, and the rule for a statement that no semicolon ends
(`endsHere`): it ends at a line end, before a closing brace and at the end of the source, unless
what follows can only continue it.
-/
namespace ApiRoutes.Script

def isSpaceSeparator (c : Char) : Bool :=
  let n := c.toNat
  n == 0x20 || n == 0xA0 || n == 0x1680 || (0x2000 ≤ n && n ≤ 0x200A) || n == 0x202F ||
    n == 0x205F || n == 0x3000

def isGap (c : Char) : Bool :=
  let n := c.toNat
  (0x09 ≤ n && n ≤ 0x0D) || isSpaceSeparator c || n == 0xFEFF || n == 0x2028 || n == 0x2029 ||
    n == 0x2060 || n == 0x200B

/-- The characters that end a line, a carriage return apart. -/
def isBreak (c : Char) : Bool := c == '\n' || c == '\u2028' || c == '\u2029'

/-- The characters before and including the end of a block comment, whose start is read. -/
def blockLength? : List Char → Option Nat
  | '*' :: '/' :: _ => some 2
  | _ :: rest => (blockLength? rest).map (· + 1)
  | [] => none

def commentLength? : List Char → Option Nat
  | '/' :: '/' :: rest => some (2 + (rest.takeWhile fun c => !isBreak c && c != '\r').length)
  | '/' :: '*' :: rest => (blockLength? rest).map (· + 2)
  | _ => none

def markupCommentLength? (cs : List Char) : Option Nat :=
  if "<!--".toList.isPrefixOf cs || "-->".toList.isPrefixOf cs then
    some (cs.takeWhile fun c => !isBreak c).length
  else none

/-- Skips white space and comments; `markup` says whether comments in the manner of HTML count. -/
def skipGaps (markup : Bool) : Nat → Cursor → List Concrete × Cursor
  | 0, c => ([], c)
  | fuel + 1, c =>
    let c := c.skipWhile isGap
    let comment? : Option (Kind × Nat) :=
      match commentLength? c.rest with
      | some n => some (.comment, n)
      | none => if markup then (markupCommentLength? c.rest).map (.other, ·) else none
    match comment? with
    | none => ([], c)
    | some (kind, n) =>
      let stop := c.skip n
      let (comments, c') := skipGaps markup fuel stop
      (.node kind none ⟨c, stop⟩ [] :: comments, c')

/-! ## Unmarked statement ends -/

/-- The characters that the look ahead takes for white space. -/
def isWide (c : Char) : Bool :=
  let n := c.toNat
  (0x09 ≤ n && n ≤ 0x0D) || n == 0x20 || n == 0x1680 ||
    (0x2000 ≤ n && n ≤ 0x200A && n != 0x2007) || n == 0x2028 || n == 0x2029 || n == 0x205F ||
    n == 0x3000

/-- What the comments ahead say about the end of a statement. -/
inductive Outlook where
  /-- A sign follows that is no comment. -/
  | reject
  /-- A block comment on one line follows, which says nothing. -/
  | undecided
  | accept
  deriving DecidableEq

/-- The text after a block comment, and whether a line ends inside it. -/
def afterBlock (broken : Bool) : List Char → Bool × Option (List Char)
  | '*' :: '/' :: rest => (broken, some rest)
  | c :: rest => afterBlock (broken || isBreak c) rest
  | [] => (broken, none)

/-- Looks over white space and comments; with `stopEarly` no further than the first block
comment. -/
def overComments (stopEarly : Bool) : Nat → Bool → List Char → Outlook × List Char
  | 0, _, cs => (.accept, cs)
  | fuel + 1, broken, cs =>
    match cs.dropWhile isWide with
    | '/' :: '/' :: rest => overComments stopEarly fuel broken (rest.dropWhile fun c => !isBreak c)
    | '/' :: '*' :: rest =>
      match afterBlock broken rest with
      | (_, none) => (.accept, [])
      | (broken, some rest) =>
        if stopEarly && rest.head? != some '/' then
          (if broken then .accept else .undecided, rest)
        else overComments stopEarly fuel broken rest
    | '/' :: rest => (.reject, rest)
    | cs => (.accept, cs)

def noLetter (cs : List Char) : Bool := !cs.head?.any fun c => c.isAlpha || 0xAA ≤ c.toNat

/-- Can a statement not go on with what stands at the start of the next line? -/
def startsStatement (cs : List Char) : Bool :=
  match cs with
  | '.' :: rest => rest.head?.any Char.isDigit
  | '+' :: rest => rest.head? == some '+'
  | '-' :: rest => rest.head? == some '-'
  | '!' :: rest => rest.head? != some '='
  | 'i' :: 'n' :: rest =>
    if noLetter rest then false
    else match rest with
      | 's' :: 't' :: 'a' :: 'n' :: 'c' :: 'e' :: 'o' :: 'f' :: rest => !noLetter rest
      | _ => true
  | c :: _ => !("`,:;*%><=[(?^|&/".toList.contains c)
  | [] => true

/-- Can a statement end here without a semicolon?  `operator` says that a binary operator could
follow; a comment on the line then does not end the statement before a line end or brace does. -/
def endsHereFrom (operator : Bool) : Nat → List Char → Bool
  | 0, _ => false
  | fuel + 1, cs =>
    let afterComments := fun (cs : List Char) =>
      match cs with
      | [] => false
      | c :: rest =>
        if c == '}' then true
        else if isBreak c then
          match overComments false rest.length false rest with
          | (.reject, _) => false
          | (_, cs) => startsStatement cs
        else if isWide c then endsHereFrom operator fuel rest
        else false
    match cs with
    | [] => true
    | '/' :: _ =>
      match overComments true (cs.length + 1) false cs with
      | (.reject, _) => false
      | (outlook, cs) =>
        if outlook == .accept && !operator && cs.head? != some ',' && cs.head? != some '=' then true
        else afterComments cs
    | cs => afterComments cs

def endsHere (operator : Bool) (cs : List Char) : Bool :=
  endsHereFrom operator (cs.length + 1) cs

end ApiRoutes.Script
