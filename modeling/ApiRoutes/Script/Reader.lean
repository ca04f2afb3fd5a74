import ApiRoutes.Failure
import ApiRoutes.Script.Comments
import ApiRoutes.Script.Grammar.Statement
import ApiRoutes.Script.Number
/-!
# Reading scripts

From the concrete tree of a source to its script tree (`Program.parse`).  Whatever the vocabulary
has no word for is kept as its text, at the innermost place where the vocabulary allows that.
-/
namespace ApiRoutes.Script

/-- Why a concrete tree gives no node of its own. -/
inductive Refusal where
  /-- The vocabulary has no such thing. -/
  | outside
  /-- A string holds an escape that names no code point. -/
  | badEscape (row : Nat) (fault : EscapeFault)

abbrev Reading := Except Refusal

/-- The text of a tree, kept as it is. -/
def keep (t : Concrete) : Node :=
  .ofShape (.raw t.text (if t.hasLongTemplate then none else some t.span.start.margin))

/-- A reading, or else the text of the tree. -/
def orKeep (t : Concrete) (r : Reading Shape) : Reading Node :=
  match r with
  | .ok shape => .ok (.ofShape shape)
  | .error .outside => .ok (keep t)
  | .error e => .error e

def commentOf (t : Concrete) : PlacedComment :=
  let text := t.text
  let comment : Comment :=
    if text.startsWith "//" then { text := text.drop 2 }
    else { text := (text.drop 2).take (text.length - 4), block := true }
  ⟨comment, t.firstRow, t.lastRow⟩

/-- A tree and its reading as a sibling of others; the words and signs of the grammar are none. -/
def siblingOf (t : Concrete) (r : Reading Node) : List (Sibling (Reading Node)) :=
  if t.isComment then [.comment (commentOf t)]
  else if t.isNamed then [.item t.firstRow t.lastRow r]
  else []

def sequence (siblings : List (Sibling (Reading Node))) : Reading (List Node) :=
  (groups siblings).mapM fun g => do
    let node ← match g.main with
      | .inl c => pure (.ofShape (.comment c.comment))
      | .inr r => r
    return node.withLayout g.layout

def stringOf (t : Concrete) : Reading (Text × Text) :=
  if t.kind = .string then
    match unquote t.text with
    | .ok value => .ok (value, t.text)
    | .error fault => .error (.badEscape t.firstRow fault)
  else .error .outside

def stringLiteral (t : Concrete) : Reading Shape := do
  let (value, raw) ← stringOf t
  return .literal (.text value) (some raw)

def childIn? (role : Role) (children : List Concrete) : Option Concrete :=
  children.find? (·.role == some role)

def childIn (role : Role) (children : List Concrete) : Reading Concrete :=
  match childIn? role children with
  | some t => .ok t
  | none => .error .outside

/-- Only what has no comment among its children can be taken apart. -/
def noComments (children : List Concrete) : Reading Unit :=
  if children.any Concrete.isComment then .error .outside else .ok ()

def noOptionalChain (children : List Concrete) : Reading Unit :=
  if children.any (·.kind == .optionalChain) then .error .outside else .ok ()

/-- Is there a comma right after an opening bracket or another comma? -/
def hasHoles : List Concrete → Bool
  | a :: b :: rest =>
    ((a.kind == .token "[" || a.kind == .token ",") && b.kind == .token ",") || hasHoles (b :: rest)
  | _ => false

/-- Does a literal stand on one line, without comments of its own? -/
def isInline (span : Span) (children : List Concrete) : Bool :=
  !span.isMultiline && !children.any Concrete.isComment

def keyOf (t : Concrete) : Reading Text :=
  match t.kind with
  | .propertyName | .number => .ok t.text
  | .string => return (← stringOf t).1
  | _ => .error .outside

/-- The parameters of a function, as they are spelled. -/
def parametersOf (children : List Concrete) : Reading (List Text) := do
  let params ← childIn .parameters children
  noComments params.children
  return params.named.map Concrete.text

def functionOf (children : List Concrete) (body : Reading (List Node)) : Reading Function := do
  let name := (childIn? .name children).map Concrete.text
  let params ← parametersOf children
  return ⟨name, params, ← body, children.any (·.kind == .token "async")⟩

def importOf (children : List Concrete) : Reading Shape := do
  noComments children
  let source ← childIn .source children
  match children.filter (·.kind == .importClause) with
  | [clause] =>
    noComments clause.children
    match clause.named with
    | [n] =>
      if n.kind != .identifier then .error .outside
      else return .imports n.text (.ofShape (← stringLiteral source))
    | _ => .error .outside
  | _ => .error .outside

/-! ## The three readings -/

mutual

def readExpression : Concrete → Reading Node
  | .node kind role span children =>
    orKeep (.node kind role span children) <|
      match kind with
      | .identifier => return .identifier span.text
      | .string => stringLiteral (.node kind role span children)
      | .number =>
        match numberValue? span.chars with
        | some v => return .literal v (some span.text)
        | none => .error .outside
      | .truth b => return .literal (.bool b) (some span.text)
      | .null => return .literal .null (some "null")
      | .member => do
        noOptionalChain children
        let property ← childIn .property children
        if property.kind != .propertyName then .error .outside
        else return .member (← readExpressionIn .object children) property.text false
      | .subscript => do
        noOptionalChain children
        let index ← childIn .index children
        if index.kind != .string then .error .outside
        else
          let object ← readExpressionIn .object children
          return .member object (← stringOf index).1 true
      | .call => do
        noOptionalChain children
        let args ← childIn .arguments children
        if args.kind != .arguments then .error .outside
        else
          let callee ← readExpressionIn .callee children
          noComments args.children
          return .call callee (← readArgumentsIn children)
      | .assignment => do
        let target ← readExpressionIn .left children
        return .assignment target (← readExpressionIn .right children)
      | .object => return .object (← sequence (readEntries children)) (isInline span children)
      | .array =>
        if hasHoles (children.filter (!·.isComment)) then .error .outside
        else return .array (← sequence (readElements children)) (isInline span children)
      | _ => .error .outside

def readExpressionIn (role : Role) : List Concrete → Reading Node
  | [] => .error .outside
  | t :: rest => if t.role == some role then readExpression t else readExpressionIn role rest

/-- The arguments of a call, from the children of the call. -/
def readArgumentsIn : List Concrete → Reading (List Node)
  | [] => .error .outside
  | .node _ role _ children :: rest =>
    if role == some .arguments then readExpressions children else readArgumentsIn rest

def readExpressions : List Concrete → Reading (List Node)
  | [] => return []
  | t :: rest =>
    if t.isNamed then do
      let e ← readExpression t
      return e :: (← readExpressions rest)
    else readExpressions rest

def readElements : List Concrete → List (Sibling (Reading Node))
  | [] => []
  | t :: rest => siblingOf t (readExpression t) ++ readElements rest

def readEntry : Concrete → Reading Node
  | .node kind role span children =>
    orKeep (.node kind role span children) <|
      match kind with
      | .shorthand => return .property span.text (.ofShape (.identifier span.text)) true
      | .pair => do
        let key ← keyOf (← childIn .key children)
        return .property key (← readExpressionIn .value children) false
      | _ => .error .outside

def readEntries : List Concrete → List (Sibling (Reading Node))
  | [] => []
  | t :: rest => siblingOf t (readEntry t) ++ readEntries rest

def readStatement : Concrete → Reading Node
  | .node kind role span children =>
    orKeep (.node kind role span children) <|
      match kind with
      | .functionDeclaration => return .function (← functionOf children (readBodyIn children))
      | .declaration => do
        noComments children
        let declarators ← readDeclarators children
        match children with
        | .node (.token word) _ _ _ :: _ => return .variables word declarators
        | _ => .error .outside
      | .expressionStatement => do
        noComments children
        match ← readExpressions children with
        | [e] => return .expression e
        | _ => .error .outside
      | .returnStatement => do
        noComments children
        match ← readExpressions children with
        | [] => return .returns none
        | [e] => return .returns (some e)
        | _ => .error .outside
      | .importStatement => importOf children
      | .exportStatement =>
        if children.any (·.kind == .token "default") then
          if (childIn? .declaration children).isSome then readExported .declaration children
          else readExported .value children
        else .error .outside
      | _ => .error .outside

def readStatements : List Concrete → List (Sibling (Reading Node))
  | [] => []
  | t :: rest => siblingOf t (readStatement t) ++ readStatements rest

/-- The variables of a declaration; there is nothing else in it. -/
def readDeclarators : List Concrete → Reading (List Declarator)
  | [] => return []
  | .node kind _ _ children :: rest => do
    match kind with
    | .token _ => readDeclarators rest
    | .declarator =>
      let name := (← childIn .name children).text
      let init ←
        if (childIn? .value children).isSome then some <$> readExpressionIn .value children
        else pure none
      return { name, init } :: (← readDeclarators rest)
    | _ => .error .outside

def readExported (role : Role) : List Concrete → Reading Shape
  | [] => .error .outside
  | t :: rest =>
    if t.role == some role then
      match role, t.kind with
      | .declaration, .functionDeclaration | .value, .functionExpression =>
        return .exportDefault (.ofShape (.function (← readFunction t)))
      | .declaration, _ => .error .outside
      | _, _ => return .exportDefault (← readExpression t)
    else readExported role rest

def readFunction : Concrete → Reading Function
  | .node _ _ _ children => functionOf children (readBodyIn children)

/-- The statements of a function, from its parts. -/
def readBodyIn : List Concrete → Reading (List Node)
  | [] => .error .outside
  | .node _ role _ children :: rest =>
    if role == some .body then sequence (readStatements children) else readBodyIn rest

end

/-! ## Modules -/

/-- Reads a module; `path` is where it comes from. -/
def Program.parse (source : Text) (path : Option Text) : Outcome Program :=
  match source.toChars? with
  | none => .error (.misuse .unencodable)
  | some source =>
    match Grammar.recognise source with
    | .error stuck => .error (.malformed ⟨path, some (stuck.row + 1), .malformed⟩)
    | .ok tree =>
      match sequence (readStatements tree.children) with
      | .ok body => .ok { body }
      | .error (.badEscape row fault) =>
        .error (.malformed ⟨path, some (row + 1), .badEscape fault⟩)
      | .error .outside => .error (.malformed ⟨path, none, .malformed⟩)

end ApiRoutes.Script
