import ApiRoutes.Script.Grammar.Class
import ApiRoutes.Script.Grammar.Markup
/-!
# Recognising scripts: expressions

Operands, operators between them, choices and assignments.  How tightly operators bind does not
matter here, since an expression with operators is kept as its text.
-/
namespace ApiRoutes.Script.Grammar

open Recogniser

def binarySigns : List String := [
  "&&", "||", "??", ">>", ">>>", "<<", "&", "^", "|", "+", "-", "*", "/", "%", "**",
  "<", "<=", "==", "===", "!=", "!==", ">=", ">"]

def updateSigns : List String := [
  "+=", "-=", "*=", "/=", "%=", "^=", "&=", "|=", ">>=", ">>>=", "<<=", "**=", "&&=", "||=", "??="]

def prefixSigns : List String := ["!", "~", "-", "+", "++", "--"]

def prefixWords : List String := ["typeof", "void", "delete"]

/-- The characters that cannot start the operand of `await`. -/
def endsAwait (rest : List Char) : Bool :=
  match rest with
  | [] => true
  | '/' :: '=' :: _ => true
  | '=' :: _ | '.' :: _ | ',' :: _ | ';' :: _ | ':' :: _ | ')' :: _ | ']' :: _ | '}' :: _ => true
  | '?' :: _ | '*' :: _ | '%' :: _ | '&' :: _ | '|' :: _ | '^' :: _ | '>' :: _ | '<' :: _ => true
  | '!' :: '=' :: _ => true
  | _ => wordAt rest == "in" || wordAt rest == "instanceof" || wordAt rest == "of"

def seesPrefix : Recogniser Bool := do
  if prefixSigns.contains (← sign) then return true
  let (w, rest) ← wordThen
  return prefixWords.contains w || (w == "await" && !endsAwait rest)

def prefixToken : Recogniser Piece := do
  let s ← sign
  if s.isEmpty then expectWord (← word) else leaf (.token s) s.length false

/-- The smallest expressions. -/
def primary (g : Grammar) : Recogniser Cover := do
  match ← charsAhead with
  | [] => fail
  | '(' :: _ => parenthesised g
  | '[' :: _ => array g
  | '{' :: _ => object g
  | '<' :: _ => .ofPiece <$> g.element
  | '/' :: _ => .ofPiece <$> regex
  | '\x60' :: _ => .ofPiece <$> template g
  | '#' :: _ =>
    let n ← privateName
    if ← seesWord "in" then return .ofPiece n else fail
  | '@' :: _ =>
    let decorators ← many (seesSign "@") (decorator g)
    .ofPiece <$> classFrom g false decorators
  | c :: rest =>
    if c == '\'' || c == '"' then .ofPiece <$> string
    else if c.isDigit || (c == '.' && rest.head?.any Char.isDigit) then .ofPiece <$> number
    else
      match ← word with
      | "function" => .ofPiece <$> functionFrom g .functionExpression []
      | "class" => .ofPiece <$> classFrom g false []
      | "this" | "super" => .ofPiece <$> anyWord .other
      | "true" => .ofPiece <$> anyWord (.truth true)
      | "false" => .ofPiece <$> anyWord (.truth false)
      | "null" => .ofPiece <$> anyWord .null
      | "import" => importOperand g
      | "async" => asyncOperand g
      | _ => nameOperand g

/-- What starts with the word `yield`; a value may follow on the same line. -/
def yielded (g : Grammar) : Recogniser Piece := do
  let word ← expectWord "yield"
  if ← seesSign "*" then
    let star ← expectSign "*"
    return .node .other [word, star, ← g.expression]
  let p ← get
  if endsHere true p.cursor.rest then return .node .other [word]
  let s ← sign
  if [")", "]", "\x7d", ",", ";", ":"].contains s || (← seesWord "in") || (← seesWord "of") then
    return .node .other [word]
  return .node .other [word, ← g.expression]

/-- An operand with its accesses, or an assignment to one. -/
def assigned (g : Grammar) : Recogniser Cover := do
  let first ← if ← seesWord "new" then creation g (primary g) (← bound) else primary g
  let c ← suffixes g true (← bound) first
  let s ← sign
  if s == "=" && c.isTarget then
    let target := match c.piece.tree?.map Concrete.kind with
      | some .object | some .array => c.piece.withKind .other
      | _ => c.piece
    let sign ← expectSign "="
    let value ← g.expression
    return { piece := .node .assignment [target.inRole .left, sign, value.inRole .right]
             isBinding := c.isPattern }
  else if updateSigns.contains s && c.isPlace then
    let sign ← expectSign s
    return .ofPiece (.node .other [c.piece, sign, ← g.expression])
  else return c

/-- An operand with the operators before it. -/
def operand (g : Grammar) : Recogniser Cover := do
  let before ← many seesPrefix prefixToken
  if ← seesWord "yield" then
    let e ← yielded g
    return .ofPiece (if before.isEmpty then e else .node .other (before ++ [e]))
  let c ← assigned g
  if before.isEmpty then return c
  return .ofPiece (.node .other (before ++ [← c.expression]))

def seesBinary : Recogniser Bool := do
  if binarySigns.contains (← sign) then return true
  let w ← word
  return w == "in" || w == "instanceof"

def binaryToken : Recogniser Piece := do
  let s ← sign
  if s.isEmpty then expectWord (← word) else expectSign s

/-- Operands with operators between them. -/
def operation (g : Grammar) : Recogniser Cover := do
  let first ← operand g
  if ← seesBinary then
    let e ← first.expression
    let rest ← many seesBinary do
      let operator ← binaryToken
      return [operator, ← (← operand g).expression]
    return .ofPiece (.node .other (e :: rest.flatten))
  else return first

/-- An expression without commas, or a pattern. -/
def coverFrom (g : Grammar) : Recogniser Cover := do
  let c ← operation g
  if ← seesSign "?" then
    let e ← c.expression
    let mark ← expectSign "?"
    let yes ← g.expression
    let colon ← expectSign ":"
    return .ofPiece (.node .other [e, mark, yes, colon, ← g.expression])
  else return c

end ApiRoutes.Script.Grammar
