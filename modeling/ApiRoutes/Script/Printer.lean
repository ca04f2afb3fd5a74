import ApiRoutes.Failure
import ApiRoutes.Script.Name
import ApiRoutes.Script.Node
/-!
# Writing scripts

The text of a script tree: four blanks of indentation, apostrophes, semicolons, one entry to a line
in literals, unless the literal stood on one line.  What a tree kept as source text is written as it
was, moved as a block to its new place (`shiftLines`).
-/
namespace ApiRoutes.Script

/-- The indentation of a nesting level. -/
def indentation (level : Nat) : Text := Text.blanks (4 * level)

/-- The text of a comment. -/
def Comment.render (c : Comment) : Text :=
  if c.block then "/*" ++ c.text ++ "*/" else "//" ++ c.text

/-! ## Scalars -/

/-- The words that scripts have for numbers that are not finite. -/
def numberSpelling : Binary64.Spelling := ⟨"Infinity", "-Infinity", "NaN", false⟩

/-- The spelling of a scalar value. -/
def spellValue : Value → Outcome Text
  | .null => .ok "null"
  | .bool b => .ok (if b then "true" else "false")
  | .int i => .ok (Text.ofInt i)
  | .float x => .ok (x.text numberSpelling)
  | .text t => .ok (quote t)
  | v => .error (.noSpelling v.kindName)

/-! ## Requests -/

/-- The members of a request that hold parameters, by where the request carries them. -/
def requestCollections : List (String × String) :=
  [("query", "query"), ("path", "params"), ("formData", "body")]

/-- The member of a request that holds the parameters of a location. -/
def collectionOf? (location : Text) : Option String :=
  (requestCollections.find? fun p => location == p.1).map (·.2)

/-- The expression that reads a parameter. -/
def Access.render (a : Access) : Outcome Text :=
  match collectionOf? a.location with
  | some collection => .ok (memberText (a.request ++ "." ++ collection) a.name)
  | none =>
    if a.location = "header" then .ok (a.request ++ ".get(" ++ quote a.name ++ ")")
    else if a.location = "body" then .ok (a.request ++ ".body")
    else .error (.noAccessor a.location)

/-! ## Kept source text -/

/-- A line moved to the left by `n` places of its indentation, as far as that goes. -/
def shiftLeft (n : Nat) (line : Text) : Text :=
  let body := line.dropWhile Text.isIndent
  line.take (line.length - body.length - n) ++ body

/-- A line moved from one indentation to another; blank lines stay. -/
def shiftLine (source target : Nat) (line : Text) : Text :=
  if Text.isBlank line then line
  else if source ≤ target then Text.blanks (target - source) ++ line
  else shiftLeft (source - target) line

/-- A text with the lines after its first moved from one indentation to another. -/
def shiftLines (source target : Nat) (text : Text) : Text :=
  match Text.lines text with
  | [] => text
  | first :: rest => Text.joinWith "\n" (first :: rest.map (shiftLine source target))

/-- Source text written at a nesting level; without an indentation it is pinned. -/
def renderRaw (text : Text) (indent : Option Nat) (level : Nat) : Text :=
  match indent with
  | none => text
  | some source => if source = 4 * level then text else shiftLines source (4 * level) text

/-! ## Blank lines -/

/-- Is the node a function, or the default export? -/
def Shape.isFunctionLike : Shape → Bool
  | .function _ | .exportDefault _ => true
  | _ => false

/-- Does a blank line stand between two statements? -/
def blankBetween (previous node : Node) : Bool :=
  match node.layout.blankBefore with
  | some b => b
  | none =>
    match previous.shape, node.shape with
    | .imports .., .imports .. => false
    | .imports .., _ => true
    | _, .returns _ => true
    | p, s => !node.layout.comments.isEmpty || p.isFunctionLike || s.isFunctionLike

/-! ## Literals -/

/-- Does a comment keep an entry of a literal off the line of the others? -/
def needsOwnLine (n : Node) : Bool :=
  match n.shape with
  | .comment _ => true
  | _ => !n.layout.comments.isEmpty || n.layout.trailing.isSome

/-- A literal on one line, when its entries fit there. -/
def onOneLine (opening closing pad : Text) (parts : List Text) : Option Text :=
  if parts.any (fun p => p.any (· == '\n')) then none
  else some (opening ++ pad ++ Text.joinWith ", " parts ++ pad ++ closing)

/-- The lines of one entry of a literal, its text given unless it is a comment. -/
def entryLines (pad : Text) (n : Node) (text : Text) : List Text :=
  let line := match n.shape with
    | .comment c => pad ++ c.render
    | _ => pad ++ text ++ ","
  let line := match n.layout.trailing with
    | some c => line ++ " " ++ c.render
    | none => line
  n.layout.comments.map (fun c => pad ++ c.render) ++ [line]

/-- The lines that follow one another, with the opening and closing ones of a literal. -/
def onManyLines (opening closing : Text) (level : Nat) (entries : List (List Text)) : Text :=
  Text.joinWith "\n" (opening :: (entries.flatten ++ [indentation level ++ closing]))

/-- The head of a function. -/
def functionHead (name : Option Text) (params : List Text) (isAsync : Bool) : Text :=
  let name : Text := match name with
    | some (c :: r) => " " ++ (c :: r)
    | _ => " "
  (if isAsync then "async " else "") ++ "function" ++ name ++ "(" ++ Text.joinWith ", " params ++ ")"

/-- A statement with its comments. -/
def statementLines (level : Nat) (layout : Layout) (text : Text) : List Text :=
  let text := match layout.trailing with
    | some c => text ++ " " ++ c.render
    | none => text
  layout.comments.map (fun c => indentation level ++ c.render) ++ [indentation level ++ text]

/-! ## Nodes -/

mutual

/-- A node as a statement, without its comments. -/
def statementText (level : Nat) : Node → Outcome Text
  | ⟨_, .function f⟩ => functionText level f
  | ⟨_, .variables kind declarations⟩ => do
    let parts ← declaratorTexts level declarations
    return kind ++ " " ++ Text.joinWith ", " parts ++ ";"
  | ⟨_, .expression e⟩ => return (← expressionText level e) ++ ";"
  | ⟨_, .returns none⟩ => return "return;"
  | ⟨_, .returns (some e)⟩ => return "return " ++ (← expressionText level e) ++ ";"
  | ⟨_, .imports binding source⟩ =>
    return "import " ++ binding ++ " from " ++ (← expressionText level source) ++ ";"
  | ⟨_, .exportDefault declaration⟩ => do
    let text ← expressionText level declaration
    match declaration.shape with
    | .function _ => return "export default " ++ text
    | _ => return "export default " ++ text ++ ";"
  | ⟨_, .comment c⟩ => return c.render
  | ⟨_, .raw text indent⟩ => return renderRaw text indent level
  | ⟨_, shape⟩ => .error (.noStatement shape.kindName)

/-- A node as an expression. -/
def expressionText (level : Nat) : Node → Outcome Text
  | ⟨_, .identifier name⟩ => return name
  | ⟨_, .literal value raw⟩ =>
    match raw with
    | some text => return text
    | none => spellValue value
  | ⟨_, .member object property computed⟩ => do
    let object ← expressionText level object
    return if computed then object ++ "[" ++ quote property ++ "]" else object ++ "." ++ property
  | ⟨_, .call callee arguments⟩ => do
    let arguments ← expressionTexts level arguments
    let callee ← expressionText level callee
    return callee ++ "(" ++ Text.joinWith ", " arguments ++ ")"
  | ⟨_, .assignment target value⟩ => do
    let target ← expressionText level target
    let value ← expressionText level value
    return target ++ " = " ++ value
  | ⟨_, .object properties inline⟩ => do
    if properties.isEmpty then return "\x7b\x7d"
    let oneLine ←
      if inline && !properties.any needsOwnLine then
        pure (onOneLine "\x7b" "\x7d" " " (← entryTexts level properties))
      else pure none
    match oneLine with
    | some text => return text
    | none => return onManyLines "\x7b" "\x7d" level (← entryBlocks level properties)
  | ⟨_, .array elements inline⟩ => do
    if elements.isEmpty then return "[]"
    let oneLine ←
      if inline && !elements.any needsOwnLine then
        pure (onOneLine "[" "]" [] (← expressionTexts level elements))
      else pure none
    match oneLine with
    | some text => return text
    | none => return onManyLines "[" "]" level (← elementBlocks level elements)
  | ⟨_, .access a⟩ => a.render
  | ⟨_, .function f⟩ => functionText level f
  | ⟨_, .raw text indent⟩ => return renderRaw text indent level
  | ⟨_, shape⟩ => .error (.noExpression shape.kindName)

/-- A function, from its head to its closing brace. -/
def functionText (level : Nat) : FunctionOf Node → Outcome Text
  | ⟨name, params, body, isAsync⟩ => do
    let head := functionHead name params isAsync
    if body.isEmpty then return head ++ " \x7b\x7d"
    let lines ← blockLines (level + 1) none body
    return head ++ " \x7b\n" ++ Text.joinWith "\n" lines ++ "\n" ++ indentation level ++ "\x7d"

/-- The variables of a declaration. -/
def declaratorTexts (level : Nat) : List (DeclaratorOf Node) → Outcome (List Text)
  | [] => return []
  | ⟨_, name, none⟩ :: rest => return name :: (← declaratorTexts level rest)
  | ⟨_, name, some init⟩ :: rest => do
    let init ← expressionText level init
    return (name ++ " = " ++ init) :: (← declaratorTexts level rest)

/-- Expressions, each on its own. -/
def expressionTexts (level : Nat) : List Node → Outcome (List Text)
  | [] => return []
  | n :: rest => do
    let text ← expressionText level n
    return text :: (← expressionTexts level rest)

/-- The entries of an object literal, each on its own. -/
def entryTexts (level : Nat) : List Node → Outcome (List Text)
  | [] => return []
  | ⟨_, .property key _ true⟩ :: rest => return key :: (← entryTexts level rest)
  | ⟨_, .property key value false⟩ :: rest => do
    let text ← expressionText level value
    return (propertyKey key ++ ": " ++ text) :: (← entryTexts level rest)
  | n :: rest => do
    let text ← expressionText level n
    return text :: (← entryTexts level rest)

/-- The lines of the entries of an object literal inside `level`. -/
def entryBlocks (level : Nat) : List Node → Outcome (List (List Text))
  | [] => return []
  | ⟨layout, .comment c⟩ :: rest =>
    return entryLines (indentation (level + 1)) ⟨layout, .comment c⟩ [] :: (← entryBlocks level rest)
  | ⟨layout, .property key value true⟩ :: rest =>
    return entryLines (indentation (level + 1)) ⟨layout, .property key value true⟩ key ::
      (← entryBlocks level rest)
  | ⟨layout, .property key value false⟩ :: rest => do
    let text ← expressionText (level + 1) value
    return entryLines (indentation (level + 1)) ⟨layout, .property key value false⟩
      (propertyKey key ++ ": " ++ text) :: (← entryBlocks level rest)
  | n :: rest => do
    let text ← expressionText (level + 1) n
    return entryLines (indentation (level + 1)) n text :: (← entryBlocks level rest)

/-- The lines of the elements of an array literal inside `level`. -/
def elementBlocks (level : Nat) : List Node → Outcome (List (List Text))
  | [] => return []
  | ⟨layout, .comment c⟩ :: rest =>
    return entryLines (indentation (level + 1)) ⟨layout, .comment c⟩ [] ::
      (← elementBlocks level rest)
  | n :: rest => do
    let text ← expressionText (level + 1) n
    return entryLines (indentation (level + 1)) n text :: (← elementBlocks level rest)

/-- The lines of a list of statements after the statement `previous`. -/
def blockLines (level : Nat) (previous : Option Node) : List Node → Outcome (List Text)
  | [] => return []
  | n :: rest => do
    let text ← statementText level n
    let gap := if previous.any (blankBetween · n) then [[]] else []
    return gap ++ statementLines level n.layout text ++ (← blockLines level (some n) rest)

end

/-- The text of a script.  It ends in a line feed unless it is empty. -/
def Program.render (p : Program) : Outcome Text := do
  let lines ← blockLines 0 none p.body
  return if lines.isEmpty then [] else Text.joinWith "\n" lines ++ "\n"

end ApiRoutes.Script
