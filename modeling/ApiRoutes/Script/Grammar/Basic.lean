import ApiRoutes.Script.Lexeme
/-!
# Recognising scripts: tokens

A recogniser reads pieces from a source and stops at the first token that does not fit.  The
recursive parts of the grammar are collected in `Grammar`, so that each construct is a definition of
its own that is given the grammar one level down.
-/
namespace ApiRoutes.Script

/-- The place of a token that does not fit. -/
structure Stuck where
  offset : Nat
  row : Nat
  deriving DecidableEq, Repr, Inhabited

/-- How far a recogniser is. -/
structure Progress where
  /-- The place after the last token. -/
  cursor : Cursor
  /-- The last token ends an operand. -/
  afterOperand : Bool := false
  deriving Inhabited

/-- Reads a part of a source, or is stuck. -/
abbrev Recogniser := StateT Progress (Except Stuck)

/-- An expression that was read before it is known what it stands for: it may turn out to be the
target of an assignment or a list of parameters. -/
structure Cover where
  piece : Piece
  /-- The place that keeps it from being an expression. -/
  refusal : Option Stuck := none
  /-- It can be assigned to. -/
  isTarget : Bool := false
  /-- It can be assigned to by an operator that reads it first. -/
  isPlace : Bool := false
  /-- It is a pattern that names parts of a value. -/
  isPattern : Bool := false
  /-- It is a pattern, or one with a default. -/
  isBinding : Bool := false
  deriving Inhabited

/-- The recursive parts of the grammar. -/
structure Grammar where
  /-- An expression without commas, or a pattern. -/
  cover : Recogniser Cover
  statement : Recogniser Piece
  /-- An element in the manner of HTML. -/
  element : Recogniser Piece

namespace Recogniser

/-! ## Looking ahead -/

/-- The comments before the next token, and its place. -/
def ahead : Recogniser (List Concrete × Cursor) := do
  let p ← get
  return skipGaps (!p.afterOperand) (p.cursor.rest.length + 1) p.cursor

def charsAhead : Recogniser (List Char) := return (← ahead).2.rest

/-- The place of the next token.  The end of a source counts as on the line of the last token. -/
def stuckHere : Recogniser Stuck := do
  let p ← get
  let c := (← ahead).2
  return ⟨c.offset, if c.atEnd then p.cursor.row else c.row⟩

def fail {α : Type} : Recogniser α := do throw (← stuckHere)

/-- The next word, empty when the next token is none. -/
def word : Recogniser String := return wordAt (← charsAhead)

/-- The next sign, empty when the next token is none. -/
def sign : Recogniser String := return signAt (← charsAhead)

def seesSign (s : String) : Recogniser Bool := return (← sign) == s

def seesWord (w : String) : Recogniser Bool := return (← word) == w

def onNewLine : Recogniser Bool := do
  let p ← get
  return (← ahead).2.row != p.cursor.row

def wordThen : Recogniser (String × List Char) := do
  let c := (← ahead).2
  let w := wordAt c.rest
  return (w, (skipGaps false (c.rest.length + 1) (c.skip w.length)).2.rest)

/-! ## Tokens -/

/-- Reads `n` characters from the next token on. -/
def leaf (kind : Kind) (n : Nat) (operand : Bool) : Recogniser Piece := do
  let (before, start) ← ahead
  let stop := start.skip n
  set ({ cursor := stop, afterOperand := operand } : Progress)
  return { before, tree? := some (.node kind none ⟨start, stop⟩ []) }

/-- Reads `n` characters right here, without white space before them. -/
def leafHere (kind : Kind) (n : Nat) (operand : Bool) : Recogniser Piece := do
  let start := (← get).cursor
  let stop := start.skip n
  set ({ cursor := stop, afterOperand := operand } : Progress)
  return { tree? := some (.node kind none ⟨start, stop⟩ []) }

def endsOperand (s : String) : Bool := s == ")" || s == "]" || s == "\x7d"

/-- Reads a sign. -/
def expectSign (s : String) : Recogniser Piece := do
  if ← seesSign s then leaf (.token s) s.length (endsOperand s) else fail

def expectWord (w : String) : Recogniser Piece := do
  if ← seesWord w then leaf (.token w) w.length false else fail

def sign? (s : String) : Recogniser (List Piece) := do
  if ← seesSign s then return [← expectSign s] else return []

def word? (w : String) : Recogniser (List Piece) := do
  if ← seesWord w then return [← expectWord w] else return []

def name : Recogniser Piece := do
  let w ← word
  if isNameWord w then leaf .identifier w.length true else fail

/-- Reads a word, be it a keyword, as a name of the given kind. -/
def anyWord (kind : Kind) : Recogniser Piece := do
  let w ← word
  if w.isEmpty then fail else leaf kind w.length true

def privateName : Recogniser Piece := do
  match ← charsAhead with
  | '#' :: rest => if wordLength rest = 0 then fail else leaf .other (wordLength rest + 1) true
  | _ => fail

def string : Recogniser Piece := do
  match stringLength? (← charsAhead) with
  | some n => leaf .string n true
  | none => fail

def number : Recogniser Piece := do
  match numberLength (← charsAhead) with
  | 0 => fail
  | n => leaf .number n true

/-! ## Alternatives and repetition -/

def further (a b : Stuck) : Stuck := if a.offset ≤ b.offset then b else a

/-- Reads the first alternative if it fits, else the second.  Where neither does, the one that
reads further says where. -/
def either {α : Type} (first second : Recogniser α) : Recogniser α := fun p =>
  match first p with
  | .ok r => .ok r
  | .error e =>
    match second p with
    | .ok r => .ok r
    | .error e' => .error (further e e')

def attempt {α : Type} (r : Recogniser α) : Recogniser (Option α) := fun p =>
  match r p with
  | .ok (a, p) => .ok (some a, p)
  | .error _ => .ok (none, p)

/-- What a recogniser would read. -/
def peeking {α : Type} (r : Recogniser α) : Recogniser α := do
  let p ← get
  let a ← r
  set p
  return a

/-- Reads parts as long as `more` says. -/
def repeated {α : Type} (more : Recogniser Bool) (part : Recogniser α) :
    Nat → Recogniser (List α)
  | 0 => return []
  | fuel + 1 => do
    if ← more then
      let first ← part
      return first :: (← repeated more part fuel)
    else return []

/-- A bound on how many parts can follow. -/
def bound : Recogniser Nat := return (← get).cursor.rest.length + 1

/-- Reads parts as long as `more` says. -/
def many {α : Type} (more : Recogniser Bool) (part : Recogniser α) : Recogniser (List α) := do
  repeated more part (← bound)

def commaSeparated (part : Recogniser Piece) : Recogniser (List Piece) := do
  let first ← part
  let rest ← many (seesSign ",") do
    let comma ← expectSign ","
    return [comma, ← part]
  return first :: rest.flatten

/-- Reads parts up to a closing sign, with commas between them and perhaps one at the end. -/
def listUpTo (closing : String) (part : Recogniser Piece) : Recogniser (List Piece) := do
  let parts ← many (return !(← seesSign closing)) do
    let p ← part
    if ← seesSign closing then return [p] else return [p, ← expectSign ","]
  return parts.flatten

/-- Reads parts up to a closing sign, with commas between them anywhere. -/
def looseListUpTo {α : Type} (closing : String) (comma : Recogniser α) (part : Recogniser α) :
    Recogniser (List α) := do
  let parts ← many (return !(← seesSign closing)) do
    if ← seesSign "," then return [← comma]
    let p ← part
    if ← seesSign closing then return [p] else return [p, ← comma]
  return parts.flatten

/-! ## Statement ends -/

/-- Takes the comments after the last token, one after the other, until a statement can end
without a semicolon. -/
def unmarkedEnd (operator : Bool) : Nat → Recogniser (Option (List Concrete))
  | 0 => return none
  | fuel + 1 => do
    let p ← get
    if endsHere operator p.cursor.rest then
      set { p with afterOperand := false }
      return some []
    else
      let c := p.cursor.skipWhile isGap
      match commentLength? c.rest with
      | none => return none
      | some n =>
        let stop := c.skip n
        set { p with cursor := stop }
        return (← unmarkedEnd operator fuel).map (.node .comment none ⟨c, stop⟩ [] :: ·)

/-- The end of a statement that no semicolon marks, if it can be here. -/
def optionalEnd (operator : Bool) : Recogniser (List Piece) := do
  let p ← get
  match ← unmarkedEnd operator (← bound) with
  | some before => return [{ before, tree? := none }]
  | none => set p; return []

/-- The end of a statement, marked by a semicolon or not. -/
def statementEnd (operator : Bool) : Recogniser Piece := do
  match ← optionalEnd operator with
  | [p] => return p
  | _ => expectSign ";"

end Recogniser

namespace Cover

/-- An expression that can stand for nothing else. -/
def ofPiece (piece : Piece) : Cover := { piece }

def expression (c : Cover) : Recogniser Piece :=
  match c.refusal with
  | none => return c.piece
  | some stuck => throw stuck

end Cover

namespace Grammar

def expression (g : Grammar) : Recogniser Piece := do (← g.cover).expression

/-- An expression, or several with commas between them. -/
def expressions (g : Grammar) : Recogniser Piece := do
  match ← Recogniser.commaSeparated g.expression with
  | [e] => return e
  | es => return Piece.node .other es

def pattern (g : Grammar) : Recogniser Piece := do
  let stuck ← Recogniser.stuckHere
  let c ← g.cover
  if c.isPattern then return c.piece.withKind .other else throw stuck

def empty : Grammar := ⟨Recogniser.fail, Recogniser.fail, Recogniser.fail⟩

end Grammar

end ApiRoutes.Script
