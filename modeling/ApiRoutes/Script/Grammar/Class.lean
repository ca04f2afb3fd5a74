import ApiRoutes.Script.Grammar.Operand
/-!
# Recognising scripts: classes
-/
namespace ApiRoutes.Script.Grammar

open Recogniser

def decorator (g : Grammar) : Recogniser Piece := do
  let sign ← expectSign "@"
  if ← seesSign "(" then return .node .other [sign, ← (← parenthesised g).expression]
  let first ← name
  let rest ← many (seesSign ".") do
    let dot ← expectSign "."
    return [dot, ← anyWord .propertyName]
  let args ← if ← seesSign "(" then pure [← arguments g] else pure []
  return .node .other (sign :: first :: rest.flatten ++ args)

def classMember (g : Grammar) : Recogniser Piece := do
  if ← seesSign ";" then return ← expectSign ";"
  let decorators ← many (seesSign "@") (decorator g)
  let (w, rest) ← wordThen
  if w == "static" && rest.head? == some '{' then
    let word ← expectWord "static"
    return .node .other (decorators ++ [word, ← block g false])
  let modifiers ← many seesModifier modifier
  let k ← key g
  if ← seesSign "(" then
    let method ← methodFrom g (decorators ++ modifiers ++ [k])
    return .node .other (method :: (← sign? ";"))
  let init ←
    if ← seesSign "=" then
      let sign ← expectSign "="
      pure [sign, ← g.expression]
    else pure []
  let field : Piece := .node .other (decorators ++ modifiers ++ [k] ++ init)
  return .node .other [field, ← statementEnd !init.isEmpty]

/-- A class from the word `class` on; after one that is a statement a statement may end. -/
def classFrom (g : Grammar) (isStatement : Bool) (head : List Piece) : Recogniser Piece := do
  let word ← expectWord "class"
  let w ← Recogniser.word
  let name ← if isNameWord w && w != "extends" then pure [← name] else pure []
  let heritage ←
    if ← seesWord "extends" then
      let word ← expectWord "extends"
      pure [word, ← g.expression]
    else pure []
  let opening ← expectSign "\x7b"
  let members ← many (return !(← seesSign "\x7d")) (classMember g)
  let closing ← expectSign "\x7d"
  let stop ← if isStatement then optionalEnd true else pure []
  return .node .other (head ++ [word] ++ name ++ heritage ++ [opening] ++ members ++ [closing] ++ stop)

end ApiRoutes.Script.Grammar
