import ApiRoutes.Script.Grammar.Expression
/-!
# Recognising scripts: statements

Statements are told apart by their first word or sign.  One that starts with a brace is a block,
unless it reads as an object with more than names in it.
-/
namespace ApiRoutes.Script.Grammar

open Recogniser

/-! ## Declarations -/

/-- A name, or a pattern that names parts of a value. -/
def declared (g : Grammar) : Recogniser Piece := do
  let stuck ← stuckHere
  let c ←
    match ← charsAhead with
    | '[' :: _ => array g
    | '{' :: _ => object g
    | _ => return ← name
  if c.isPattern then return c.piece.withKind .other else throw stuck

/-- One variable of a declaration, and whether it has an initializer. -/
def declarator (g : Grammar) : Recogniser Piece := do
  let n ← declared g
  if ← seesSign "=" then
    let sign ← expectSign "="
    let value ← g.expression
    return .node .declarator [n.inRole .name, sign, value.inRole .value]
  else return .node .declarator [n.inRole .name]

/-- Has the last variable of a declaration an initializer? -/
def endsInValue (pieces : List Piece) : Bool :=
  match pieces.getLast?.bind (·.tree?) with
  | some t => t.children.length ≠ 1
  | none => false

def declaration (g : Grammar) (kind : Kind) : Recogniser Piece := do
  let word ← anyWord (.token (← word))
  modify fun p => { p with afterOperand := false }
  let declarators ← commaSeparated (declarator g)
  return .node kind (word :: declarators ++ [← statementEnd (endsInValue declarators)])

/-- Does the word start a declaration of variables, with what follows it? -/
def startsVariables (w : String) (rest : List Char) : Bool :=
  w == "var" || w == "const" ||
    (w == "let" && (isNameWord (wordAt rest) || rest.head? == some '[' || rest.head? == some '{') &&
      wordAt rest != "in" && wordAt rest != "of")

/-! ## Loops and choices -/

def condition (g : Grammar) : Recogniser Piece := do
  let opening ← expectSign "("
  let e ← g.expressions
  let closing ← leaf (.token ")") 1 false
  return .node .other [opening, e, closing]

def loopTarget (g : Grammar) : Recogniser (List Piece) := do
  let (w, rest) ← wordThen
  if startsVariables w rest then
    let word ← expectWord w
    let n ← declared g
    if w == "var" && (← seesSign "=") then
      let sign ← expectSign "="
      return [word, n, sign, ← g.expression]
    return [word, n]
  let stuck ← stuckHere
  let c ← suffixes g true (← bound) (← primary g)
  if c.isTarget then return [c.piece] else throw stuck

def loopOver (g : Grammar) : Recogniser (List Piece) := do
  let opening ← expectSign "("
  let target ← loopTarget g
  let link ← if ← seesWord "of" then expectWord "of" else expectWord "in"
  let e ← g.expressions
  return opening :: target ++ [link, e, ← leaf (.token ")") 1 false]

/-- The head of a loop with a start, a condition and a step. -/
def loopSteps (g : Grammar) : Recogniser (List Piece) := do
  let opening ← expectSign "("
  let (w, rest) ← wordThen
  let start ←
    if startsVariables w rest then pure [← declaration g .other]
    else if ← seesSign ";" then pure [← expectSign ";"]
    else
      let e ← g.expressions
      pure [e, ← expectSign ";"]
  let condition ← if ← seesSign ";" then pure [] else pure [← g.expressions]
  let semicolon ← expectSign ";"
  let step ← if ← seesSign ")" then pure [] else pure [← g.expressions]
  return opening :: start ++ condition ++ [semicolon] ++ step ++ [← leaf (.token ")") 1 false]

/-- A loop from the word `for` on. -/
def forStatement (g : Grammar) : Recogniser Piece := do
  let word ← expectWord "for"
  let head ←
    if ← seesWord "await" then
      let word ← expectWord "await"
      pure (word :: (← loopOver g))
    else either (loopOver g) (loopSteps g)
  return .node .other (word :: head ++ [← g.statement])

def ifStatement (g : Grammar) : Recogniser Piece := do
  let word ← expectWord "if"
  let test ← condition g
  let yes ← g.statement
  let no ←
    if ← seesWord "else" then
      let word ← expectWord "else"
      pure [.node .other [word, ← g.statement]]
    else pure []
  return .node .other ([word, test, yes] ++ no)

def doStatement (g : Grammar) : Recogniser Piece := do
  let word ← expectWord "do"
  let body ← g.statement
  let while_ ← expectWord "while"
  let test ← condition g
  let stop ← optionalEnd false
  let stop ← if stop.isEmpty then sign? ";" else pure stop
  return .node .other ([word, body, while_, test] ++ stop)

def switchStatement (g : Grammar) : Recogniser Piece := do
  let word ← expectWord "switch"
  let test ← condition g
  let opening ← expectSign "\x7b"
  let cases ← many (return !(← seesSign "\x7d")) do
    let head ←
      if ← seesWord "default" then pure [← expectWord "default"]
      else
        let word ← expectWord "case"
        pure [word, ← g.expressions]
    let colon ← leaf (.token ":") 1 false
    let body ←
      many (return !(← seesSign "\x7d") && !(← seesWord "case") && !(← seesWord "default")) g.statement
    return .node .other (head ++ [colon] ++ body)
  return .node .other ([word, test, opening] ++ cases ++ [← expectSign "\x7d"])

def tryStatement (g : Grammar) : Recogniser Piece := do
  let word ← expectWord "try"
  let body ← block g false
  let handler ←
    if ← seesWord "catch" then
      let word ← expectWord "catch"
      let parameter ←
        if ← seesSign "(" then
          let opening ← expectSign "("
          let n ← declared g
          pure [opening, n, ← expectSign ")"]
        else pure []
      pure [.node .other (word :: parameter ++ [← block g false])]
    else pure []
  let finalizer ←
    if ← seesWord "finally" then
      let word ← expectWord "finally"
      pure [.node .other [word, ← block g false]]
    else pure []
  return .node .other ([word, body] ++ handler ++ finalizer)

/-- A statement of a word, a condition and a statement. -/
def guarded (g : Grammar) (w : String) : Recogniser Piece := do
  let word ← expectWord w
  let test ← condition g
  return .node .other [word, test, ← g.statement]

/-! ## Jumps -/

/-- A word alone, or with what `operand` reads, and its end. -/
def jump (kind : Kind) (w : String) (operator : Bool) (operand : Recogniser Piece) :
    Recogniser Piece := do
  let word ← expectWord w
  match ← optionalEnd false with
  | [stop] => return .node kind [word, stop]
  | _ =>
    if ← seesSign ";" then return .node kind [word, ← expectSign ";"]
    let e ← operand
    return .node kind [word, e, ← statementEnd operator]

/-! ## Imports and exports -/

/-- A name that a module gives something, or a string. -/
def exportedName : Recogniser Piece := do
  match ← charsAhead with
  | c :: _ => if c == '\'' || c == '"' then string else anyWord .identifier
  | [] => fail

/-- A name, perhaps with another that it goes by. -/
def specifier : Recogniser Piece := do
  let n ← exportedName
  if ← seesWord "as" then
    let word ← expectWord "as"
    return .node .other [n, word, ← exportedName]
  else return n

def specifiers : Recogniser Piece := do
  let opening ← expectSign "\x7b"
  let parts ← listUpTo "\x7d" specifier
  return .node .other (opening :: parts ++ [← expectSign "\x7d"])

def wholeModule : Recogniser Piece := do
  let star ← expectSign "*"
  let word ← expectWord "as"
  return .node .other [star, word, ← exportedName]

def fromModule : Recogniser (List Piece) := do
  let word ← expectWord "from"
  return [word, (← string).inRole .source]

def importClause : Recogniser Piece := do
  let rest : Recogniser Piece := do
    if ← seesSign "*" then wholeModule else specifiers
  if (← Recogniser.word).isEmpty then return .node .importClause [← rest]
  let n ← name
  if ← seesSign "," then
    let comma ← expectSign ","
    return .node .importClause [n, comma, ← rest]
  else return .node .importClause [n]

def importStatement (g : Grammar) : Recogniser Piece := do
  let word ← expectWord "import"
  let body ←
    match ← charsAhead with
    | '\'' :: _ | '"' :: _ => pure [(← string).inRole .source]
    | _ =>
      let clause ← importClause
      pure (clause :: (← fromModule))
  let attributes ←
    if ← seesWord "with" then
      let word ← expectWord "with"
      pure [.node .other [word, ← (← object g).expression]]
    else pure []
  return .node .importStatement (word :: body ++ attributes ++ [← statementEnd false])

def seesNamed (w : String) : Recogniser Bool := peeking do
  let _ ← expectWord w
  let _ ← sign? "*"
  let n ← word
  return isNameWord n && !(w == "class" && n == "extends")

/-- Does an asynchronous function follow, on one line with its word? -/
def seesAsyncFunction : Recogniser Bool := peeking do
  unless ← seesWord "async" do return false
  let _ ← expectWord "async"
  return (← seesWord "function") && !(← onNewLine)

/-- A declaration, if one follows. -/
def declaration? (g : Grammar) : Recogniser (Option Piece) := do
  let (w, rest) ← wordThen
  if startsVariables w rest then return some (← declaration g .declaration)
  if w == "function" then
    if ← seesNamed "function" then return some (← functionFrom g .functionDeclaration [])
  if w == "class" then
    if ← seesNamed "class" then return some (← classFrom g true [])
  if ← seesAsyncFunction then
    let named ← peeking do
      let _ ← expectWord "async"
      seesNamed "function"
    if named then
      let word ← expectWord "async"
      return some (← functionFrom g .functionDeclaration [word])
  if w == "using" && isNameWord (wordAt rest) && wordAt rest != "of" && wordAt rest != "in" then
    let sameLine ← peeking do
      let _ ← name
      return !(← onNewLine)
    if sameLine then return some (← declaration g .other)
  return none

def exportStatement (g : Grammar) (head : List Piece) : Recogniser Piece := do
  let word ← expectWord "export"
  let head := head ++ [word]
  match ← charsAhead with
  | '*' :: _ =>
    let star ← expectSign "*"
    if ← seesWord "as" then
      let word ← expectWord "as"
      let n ← exportedName
      let source ← fromModule
      return .node .exportStatement (head ++ [star, word, n] ++ source ++ [← statementEnd false])
    let source ← fromModule
    return .node .exportStatement (head ++ [star] ++ source ++ [← statementEnd false])
  | '{' :: _ =>
    let names ← specifiers
    let source ← if ← seesWord "from" then fromModule else pure []
    return .node .exportStatement (head ++ [names] ++ source ++ [← statementEnd false])
  | _ =>
    let default ← word? "default"
    match ← declaration? g with
    | some d => return .node .exportStatement (head ++ default ++ [d.inRole .declaration])
    | none =>
      if default.isEmpty then
        if ← seesSign "@" then
          let decorators ← many (seesSign "@") (decorator g)
          let d ← classFrom g true decorators
          return .node .exportStatement (head ++ [d.inRole .declaration])
        fail
      let e ← g.expression
      return .node .exportStatement (head ++ default ++ [e.inRole .value, ← statementEnd true])

/-! ## Statements -/

def expressionStatement (g : Grammar) : Recogniser Piece := do
  let e ← g.expressions
  return .node .expressionStatement [e, ← statementEnd true]

/-- Does the brace ahead start an object whose first entry is more than a name? -/
def seesObject (g : Grammar) : Recogniser Bool := do
  match ← peeking (attempt (object g)) with
  | some c =>
    match (c.piece.tree?.map Concrete.named).getD [] with
    | t :: _ => return c.refusal.isNone && t.kind != .shorthand
    | [] => return false
  | none => return false

def labelled (g : Grammar) : Recogniser Piece := do
  let n ← name
  let colon ← expectSign ":"
  return .node .other [n, colon, ← g.statement]

def statementFrom (g : Grammar) : Recogniser Piece := do
  match ← charsAhead with
  | '{' :: _ =>
    if ← seesObject g then either (expressionStatement g) (block g false) else block g false
  | ';' :: _ => .node .other <$> (return [← expectSign ";"])
  | '@' :: _ =>
    let decorators ← many (seesSign "@") (decorator g)
    if ← seesWord "export" then exportStatement g decorators else classFrom g true decorators
  | _ =>
    let (w, rest) ← wordThen
    if let some d ← declaration? g then return d
    match w with
    | "if" => ifStatement g
    | "for" => forStatement g
    | "while" => guarded g "while"
    | "with" => guarded g "with"
    | "do" => doStatement g
    | "switch" => switchStatement g
    | "try" => tryStatement g
    | "break" => jump .other "break" false name
    | "continue" => jump .other "continue" false name
    | "debugger" => return .node .other [← expectWord "debugger", ← statementEnd false]
    | "return" => jump .returnStatement "return" true g.expressions
    | "throw" =>
      let word ← expectWord "throw"
      let e ← g.expressions
      return .node .other [word, e, ← statementEnd true]
    | "import" =>
      if rest.head? == some '(' || rest.head? == some '.' then expressionStatement g
      else importStatement g
    | "export" => exportStatement g []
    | _ =>
      if isNameWord w && signAt rest == ":" then labelled g else expressionStatement g

/-! ## Modules -/

/-- The grammar, with `n` levels of nesting. -/
def level : Nat → Grammar
  | 0 => empty
  | n + 1 =>
    let g := level n
    ⟨coverFrom g, statementFrom g, elementFrom g⟩

def interpreterLine : Recogniser (List Piece) := do
  match ← charsAhead with
  | '#' :: '!' :: rest => return [← leaf .other (2 + (rest.takeWhile (· != '\n')).length) false]
  | _ => return []

/-- A module: all the statements of a source. -/
def script (g : Grammar) : Recogniser Concrete := do
  let start := (← get).cursor
  let line ← interpreterLine
  let statements ← many (return !(← charsAhead).isEmpty) g.statement
  let (rest, stop) ← ahead
  return .node .program none ⟨start, stop⟩ ((line ++ statements).flatMap Piece.trees ++ rest)

/-- Reads a source, or says where it is stuck.  Every level of nesting takes two characters. -/
def recognise (source : List Char) : Except Stuck Concrete :=
  (script (level (source.length + 8))).run' { cursor := .ofSource source }

end ApiRoutes.Script.Grammar
