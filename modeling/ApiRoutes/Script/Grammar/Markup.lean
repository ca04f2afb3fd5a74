import ApiRoutes.Script.Grammar.Basic
/-!
# Recognising scripts: elements

Elements in the manner of HTML inside a script: a start, children and an end, or a start that is an
end as well.
-/
namespace ApiRoutes.Script.Grammar

open Recogniser

def isElementNamePart (c : Char) : Bool := isWordPart c || c == '-'

def elementWord : Recogniser Piece := do
  let cs ← charsAhead
  if cs.head?.any fun c => isWordPart c && !c.isDigit then
    leaf .other (cs.takeWhile isElementNamePart).length false
  else fail

/-- The name of an element or attribute: names with points or a colon between them. -/
def elementName : Recogniser Piece := do
  let first ← elementWord
  let rest ← many (return (← seesSign ".") || (← seesSign ":")) do
    let s ← expectSign (← sign)
    return [s, ← elementWord]
  return .node .other (first :: rest.flatten)

def embedded (g : Grammar) : Recogniser Piece := do
  let opening ← expectSign "\x7b"
  if ← seesSign "\x7d" then return .node .other [opening, ← expectSign "\x7d"]
  let inner ←
    if ← seesSign "..." then
      let dots ← expectSign "..."
      pure (.node .other [dots, ← g.expression])
    else g.expressions
  return .node .other [opening, inner, ← expectSign "\x7d"]

def attributeValue (g : Grammar) : Recogniser Piece := do
  match ← charsAhead with
  | '{' :: _ => embedded g
  | '<' :: _ => g.element
  | c :: rest =>
    if c == '"' || c == '\'' then
      let inner := rest.takeWhile (· != c)
      if inner.length = rest.length then fail else leaf .string (inner.length + 2) false
    else fail
  | [] => fail

def elementAttribute (g : Grammar) : Recogniser Piece := do
  if ← seesSign "\x7b" then return ← embedded g
  let n ← elementName
  if ← seesSign "=" then
    let s ← expectSign "="
    return .node .other [n, s, ← attributeValue g]
  else return n

def referenceLength? : List Char → Option Nat
  | '&' :: '#' :: rest =>
    let digits := match rest with
      | 'x' :: r | 'X' :: r => (r.takeWhile isHex).length + 1
      | r => (r.takeWhile Char.isDigit).length
    if digits ≠ 0 ∧ (rest.drop digits).head? = some ';' then some (digits + 3) else none
  | '&' :: rest =>
    let n := (rest.takeWhile Char.isAlpha).length
    if n ≠ 0 ∧ (rest.drop n).head? = some ';' then some (n + 2) else none
  | _ => none

/-- Is there no start of an element or script, and no sign that may not stand in text? -/
def isElementText (c : Char) : Bool := !(['<', '>', '{', '}', '&'].contains c)

/-- The children of an element, up to the start of its end. -/
def children (g : Grammar) : Nat → Recogniser (List Piece)
  | 0 => fail
  | fuel + 1 => do
    match (← get).cursor.rest with
    | '<' :: _ =>
      let rest ← peeking do
        let _ ← expectSign "<"
        charsAhead
      if rest.head? == some '/' then return []
      let child ← g.element
      return child :: (← children g fuel)
    | '{' :: _ =>
      let child ← embedded g
      return child :: (← children g fuel)
    | '&' :: rest =>
      match referenceLength? ('&' :: rest) with
      | none => fail
      | some n =>
        let child ← leafHere .other n false
        return child :: (← children g fuel)
    | c :: rest =>
      if isElementText c then
        let child ← leafHere .other ((c :: rest).takeWhile isElementText).length false
        return child :: (← children g fuel)
      else fail
    | [] => fail

def elementFrom (g : Grammar) : Recogniser Piece := do
  let opening ← expectSign "<"
  let head ←
    if ← seesSign ">" then pure []
    else
      let n ← elementName
      let attributes ← many (return !(← seesSign ">") && !(← seesSign "/")) (elementAttribute g)
      pure (n :: attributes)
  if ← seesSign "/" then
    let slash ← leaf (.token "/") 1 false
    return .node .other (opening :: head ++ [slash, ← leaf (.token ">") 1 true])
  let middle ← leaf (.token ">") 1 false
  let inner ← children g (← bound)
  let less ← expectSign "<"
  let slash ← leaf (.token "/") 1 false
  let n ← if ← seesSign ">" then pure [] else pure [← elementName]
  unless ← seesSign ">" do fail
  return .node .other (opening :: head ++ [middle] ++ inner ++ [less, slash] ++ n ++
    [← leaf (.token ">") 1 true])

end ApiRoutes.Script.Grammar
