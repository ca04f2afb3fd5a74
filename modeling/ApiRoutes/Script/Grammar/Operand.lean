import ApiRoutes.Script.Grammar.Basic
/-!
# Recognising scripts: operands

The smallest expressions: literals, parenthesised expressions and arrow functions, templates, calls
and members.  An object, an array or a parenthesis is read once, and the sign after it says whether
it was an expression or a pattern.
-/
namespace ApiRoutes.Script.Grammar

open Recogniser

/-- The first thing in the way of reading all the parts as expressions. -/
def firstRefusal (parts : List Cover) : Option Stuck := parts.findSome? (·.refusal)

def coverSign (s : String) : Recogniser Cover := do
  return { piece := ← expectSign s, isBinding := true }

/-- Three points and what they spread or gather. -/
def spread (g : Grammar) : Recogniser Cover := do
  let dots ← expectSign "..."
  let c ← g.cover
  return { piece := .node .other [dots, c.piece], refusal := c.refusal, isBinding := c.isPattern }

/-- A part of an array or of the arguments of a call. -/
def item (g : Grammar) : Recogniser Cover := do
  if ← seesSign "..." then spread g else g.cover

/-! ## Functions -/

def parameters (g : Grammar) : Recogniser Piece := do
  let opening ← expectSign "("
  let parts ← listUpTo ")" do
    let stuck ← stuckHere
    let c ← item g
    if c.isBinding then return c.piece.withKind .other else throw stuck
  return .node .parameters (opening :: parts ++ [← expectSign ")"])

/-- Statements between braces.  The end of a statement may follow that no semicolon marks. -/
def block (g : Grammar) (operator : Bool) : Recogniser Piece := do
  let opening ← expectSign "\x7b"
  let statements ← many (return !(← seesSign "\x7d")) g.statement
  let closing ← expectSign "\x7d"
  return .node .block (opening :: statements ++ [closing] ++ (← optionalEnd operator))

/-- A function from the word `function` on, after `head`; one that yields has no counterpart. -/
def functionFrom (g : Grammar) (kind : Kind) (head : List Piece) : Recogniser Piece := do
  let word ← expectWord "function"
  let star ← sign? "*"
  let name ← if ← seesSign "(" then pure [] else pure [(← name).inRole .name]
  let params ← parameters g
  let body ← block g true
  return .node (if star.isEmpty then kind else .other)
    (head ++ [word] ++ star ++ name ++ [params.inRole .parameters, body.inRole .body])

def arrowFrom (g : Grammar) (head : List Piece) : Recogniser Cover := do
  let arrow ← expectSign "=>"
  let body ←
    if ← seesSign "\x7b" then either (block g true) g.expression else g.expression
  return .ofPiece (.node .other (head ++ [arrow, body]))

/-! ## Parentheses and arguments -/

def arguments (g : Grammar) : Recogniser Piece := do
  let opening ← expectSign "("
  let parts ← looseListUpTo ")" (expectSign ",") do (← item g).expression
  return .node .arguments (opening :: parts ++ [← expectSign ")"])

/-- An expression in parentheses, or an arrow function. -/
def parenthesised (g : Grammar) : Recogniser Cover := do
  let opening ← expectSign "("
  let parts ← many (return !(← seesSign ")")) do
    let dots ← seesSign "..."
    let stuck ← stuckHere
    let c ← item g
    let c := if dots then { c with refusal := some stuck } else c
    if ← seesSign ")" then return [c] else return [c, ← coverSign ","]
  let parts := parts.flatten
  let stuck ← stuckHere
  let closing ← expectSign ")"
  if (← seesSign "=>") && parts.all (·.isBinding) then
    arrowFrom g [.node .other (opening :: parts.map (·.piece) ++ [closing])]
  else
    match firstRefusal parts, parts.length % 2 with
    | some stuck, _ => throw stuck
    | none, 0 => throw stuck
    | none, _ =>
      let inner := match parts with
        | [c] => c.piece
        | cs => .node .other (cs.map (·.piece))
      return { piece := .node .other [opening, inner, closing], isTarget := true, isPlace := true }

/-! ## Literals -/

/-- An array, or a pattern for one. -/
def array (g : Grammar) : Recogniser Cover := do
  let opening ← expectSign "["
  let parts ← looseListUpTo "]" (coverSign ",") (item g)
  let closing ← expectSign "]"
  let isPattern := parts.all (·.isBinding)
  return {
    piece := .node .array (opening :: parts.map (·.piece) ++ [closing])
    refusal := firstRefusal parts
    isTarget := isPattern, isPattern, isBinding := isPattern }

def key (g : Grammar) : Recogniser Piece := do
  match ← charsAhead with
  | '[' :: _ =>
    let opening ← expectSign "["
    let e ← g.expression
    return .node .other [opening, e, ← expectSign "]"]
  | '#' :: _ => privateName
  | c :: rest =>
    if c == '\'' || c == '"' then string
    else if c.isDigit || (c == '.' && rest.head?.any Char.isDigit) then number
    else anyWord .propertyName
  | [] => fail

def modifierWords : List String := ["async", "get", "set", "static", "accessor"]

/-- Is the next token a word before the name of a method, and not the name itself? -/
def seesModifier : Recogniser Bool := do
  if ← seesSign "*" then return true
  let (w, rest) ← wordThen
  return modifierWords.contains w &&
    !(rest.head?.all fun c => ['(', ':', ',', '\x7d', '=', ';'].contains c)

/-- A word or sign before the name of a method. -/
def modifier : Recogniser Piece := do
  if ← seesSign "*" then expectSign "*" else anyWord (.token "modifier")

def methodFrom (g : Grammar) (head : List Piece) : Recogniser Piece := do
  let params ← parameters g
  return .node .other (head ++ [params, ← block g false])

/-- A property that is named like the variable that holds its value, perhaps with a default. -/
def shorthand (g : Grammar) : Recogniser Cover := do
  let n := (← name).withKind .shorthand
  if ← seesSign "=" then
    let stuck ← stuckHere
    let sign ← expectSign "="
    let e ← g.expression
    return { piece := .node .other [n, sign, e], refusal := some stuck, isBinding := true }
  else return { piece := n, isBinding := true }

/-- An entry of an object, or of a pattern for one. -/
def entry (g : Grammar) : Recogniser Cover := do
  if ← seesSign "..." then return ← spread g
  let modifiers ← many seesModifier modifier
  if !modifiers.isEmpty then
    return .ofPiece (← methodFrom g (modifiers ++ [← key g]))
  let (w, rest) ← wordThen
  let sign := signAt rest
  if !w.isEmpty && (sign == "," || sign == "\x7d" || sign == "=") then return ← shorthand g
  let k ← key g
  if ← seesSign ":" then
    let colon ← expectSign ":"
    let c ← g.cover
    return { c with piece := .node .pair [k.inRole .key, colon, c.piece.inRole .value] }
  else return .ofPiece (← methodFrom g [k])

/-- An object, or a pattern for one. -/
def object (g : Grammar) : Recogniser Cover := do
  let opening ← expectSign "\x7b"
  let parts ← looseListUpTo "\x7d" (coverSign ",") (entry g)
  let closing ← expectSign "\x7d"
  let isPattern := parts.all (·.isBinding)
  return {
    piece := .node .object (opening :: parts.map (·.piece) ++ [closing])
    refusal := firstRefusal parts
    isTarget := isPattern, isPattern, isBinding := isPattern }

/-- The parts of a template after its start, up to its end. -/
def templateParts (g : Grammar) (start : Stuck) : Nat → Recogniser (List Piece)
  | 0 => throw start
  | fuel + 1 => do
    match (← get).cursor.rest with
    | [] => throw start
    | '\x60' :: _ => return [← leafHere (.token "\x60") 1 true]
    | '$' :: '{' :: _ =>
      let opening ← leafHere (.token "$\x7b") 2 false
      let e ← g.expressions
      let closing ← expectSign "\x7d"
      return opening :: e :: closing :: (← templateParts g start fuel)
    | '\\' :: rest =>
      match escapeLength? rest with
      | none => fail
      | some n =>
        let e ← leafHere .other (n + 1) false
        return e :: (← templateParts g start fuel)
    | cs =>
      let run ← leafHere .other (max 1 (templateRun cs)) false
      return run :: (← templateParts g start fuel)

def template (g : Grammar) : Recogniser Piece := do
  let stuck ← stuckHere
  let start ← leaf (.token "\x60") 1 false
  return .node .template (start :: (← templateParts g stuck (← bound)))

def regex : Recogniser Piece := do
  match regexLength? (← charsAhead) with
  | some n => leaf .other n true
  | none => fail

/-! ## Members and calls -/

/-- An expression after which others can be named, indexed and called. -/
def placeOf (piece : Piece) : Cover :=
  { piece, isTarget := true, isPlace := true, isPattern := true, isBinding := true }

/-- A member of an object, after the sign of the access. -/
def memberFrom (object : Piece) (sign : Piece) : Recogniser Cover := do
  let property ←
    match ← charsAhead with
    | '#' :: _ => privateName
    | _ => anyWord .propertyName
  return placeOf (.node .member [object.inRole .object, sign, property.inRole .property])

/-- An indexed member of an object, after the signs of the access. -/
def subscriptFrom (g : Grammar) (object : Piece) (signs : List Piece) : Recogniser Cover := do
  let opening ← expectSign "["
  let index ← g.expressions
  let closing ← expectSign "]"
  return placeOf (.node .subscript
    ([object.inRole .object] ++ signs ++ [opening, index.inRole .index, closing]))

/-- A call, after the signs of the access. -/
def callFrom (g : Grammar) (callee : Piece) (signs : List Piece) : Recogniser Cover := do
  let args ← arguments g
  return .ofPiece (.node .call ([callee.inRole .callee] ++ signs ++ [args.inRole .arguments]))

/-- One more access to an expression, if one follows; `calls` says whether calls count. -/
def suffix? (g : Grammar) (calls : Bool) (c : Cover) : Recogniser (Option Cover) := do
  match ← sign with
  | "." =>
    let e ← c.expression
    some <$> memberFrom e (← expectSign ".")
  | "[" => some <$> subscriptFrom g (← c.expression) []
  | "(" => if calls then some <$> callFrom g (← c.expression) [] else return none
  | "?." =>
    if !calls then return none
    let e ← c.expression
    let mark := (← expectSign "?.").withKind .optionalChain
    match ← charsAhead with
    | '[' :: _ => some <$> subscriptFrom g e [mark]
    | '(' :: _ => some <$> callFrom g e [mark]
    | _ => some <$> memberFrom e mark
  | "" =>
    match ← charsAhead with
    | '\x60' :: _ =>
      let e ← c.expression
      let t ← template g
      return some (.ofPiece (.node .call [e.inRole .callee, t.inRole .arguments]))
    | _ => return none
  | s =>
    if (s == "++" || s == "--") && calls && !(← onNewLine) then
      let e ← c.expression
      return some (.ofPiece (.node .other [e, ← expectSign s]))
    else return none

/-- All the accesses to an expression that follow. -/
def suffixes (g : Grammar) (calls : Bool) : Nat → Cover → Recogniser Cover
  | 0, c => return c
  | fuel + 1, c => do
    match ← suffix? g calls c with
    | some c => suffixes g calls fuel c
    | none => return c

/-- The expression after `new`, and what is built, as often as `new` stands there. -/
def creation (g : Grammar) (primary : Recogniser Cover) : Nat → Recogniser Cover
  | 0 => fail
  | fuel + 1 => do
    let word ← expectWord "new"
    if ← seesSign "." then
      let dot ← expectSign "."
      return .ofPiece (.node .other [word, dot, ← expectWord "target"])
    let target ←
      if ← seesWord "new" then creation g primary fuel
      else suffixes g false (← bound) (← primary)
    let target ← target.expression
    let args ← if ← seesSign "(" then pure [← arguments g] else pure []
    return .ofPiece (.node .other ([word, target] ++ args))

/-- What starts with the word `import` inside an expression. -/
def importOperand (g : Grammar) : Recogniser Cover := do
  let word := (← expectWord "import").withKind .other
  if ← seesSign "." then
    let dot ← expectSign "."
    return .ofPiece (.node .other [word, dot, ← anyWord (.token "meta")])
  else callFrom g word []

/-- A name, or an arrow function with a name for its only parameter. -/
def nameOperand (g : Grammar) : Recogniser Cover := do
  let n ← name
  if ← seesSign "=>" then arrowFrom g [n] else return placeOf n

/-- What starts with the word `async`. -/
def asyncOperand (g : Grammar) : Recogniser Cover := do
  let here ← peeking do
    let _ ← anyWord .identifier
    return !(← onNewLine)
  let (_, rest) ← wordThen
  let next := wordAt rest
  if here && next == "function" then
    let word ← expectWord "async"
    return .ofPiece (← functionFrom g .functionExpression [word])
  else if here && isNameWord next then
    let word ← expectWord "async"
    let parameter ← name
    arrowFrom g [word, parameter]
  else if rest.head? == some '(' then
    let word ← anyWord .identifier
    let opening ← expectSign "("
    let parts ← looseListUpTo ")" (coverSign ",") (item g)
    let closing ← expectSign ")"
    let args : Piece := .node .arguments (opening :: parts.map (·.piece) ++ [closing])
    if (← seesSign "=>") && parts.all (·.isBinding) then arrowFrom g [word, args]
    else
      match firstRefusal parts with
      | some stuck => throw stuck
      | none =>
        return .ofPiece (.node .call [word.inRole .callee, args.inRole .arguments])
  else nameOperand g

end ApiRoutes.Script.Grammar
