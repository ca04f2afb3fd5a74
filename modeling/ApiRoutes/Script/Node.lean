import ApiRoutes.Value
/-!
# Script trees

The tree of a route module.  The vocabulary is the part of the language that generated modules are
made of; any other piece of a script is kept as its exact text (`Shape.raw`), so what people wrote
by hand survives reading and writing.
-/
namespace ApiRoutes.Script

/-- A comment, without its delimiters. -/
structure Comment where
  text : Text
  /-- Written between `/*` and `*/`, not after `//`. -/
  block : Bool := false
  deriving DecidableEq, Inhabited

/-- How a node stands among its neighbours. -/
structure Layout where
  /-- The comments on the lines above the node. -/
  comments : List Comment := []
  /-- The comment that follows the node on its line. -/
  trailing : Option Comment := none
  /-- Whether a blank line stands above; `none` leaves it to the writer. -/
  blankBefore : Option Bool := none
  deriving DecidableEq, Inhabited

/-- Reads one parameter of a request. -/
structure Access where
  /-- The name of the request object. -/
  request : Text
  /-- Where the request carries the parameter. -/
  location : Text
  name : Text
  deriving DecidableEq, Inhabited

/-- A function with a body of nodes `α`. -/
structure FunctionOf (α : Type) where
  name : Option Text
  params : List Text := []
  body : List α := []
  isAsync : Bool := false

/-- One variable of a declaration, with an initializer `α`. -/
structure DeclaratorOf (α : Type) where
  layout : Layout := {}
  name : Text
  init : Option α := none

mutual

/-- A node of a script: what it is, and how it stands among its neighbours. -/
inductive Node where
  | mk (layout : Layout) (shape : Shape)

/-- What a node is. -/
inductive Shape where
  /-- A comment that stands on its own. -/
  | comment (comment : Comment)
  /-- Text outside the vocabulary, with the indentation of the line that it starts on.  Without one
  the lines of the text never move. -/
  | raw (text : Text) (indent : Option Nat)
  | identifier (name : Text)
  /-- A scalar, with its spelling in the source. -/
  | literal (value : Value) (raw : Option Text)
  /-- A property of an object, `object['property']` when `computed`. -/
  | member (object : Node) (property : Text) (computed : Bool)
  | call (callee : Node) (arguments : List Node)
  | assignment (target value : Node)
  /-- An entry of an object literal; a shorthand one is written as its key alone. -/
  | property (key : Text) (value : Node) (shorthand : Bool)
  | object (properties : List Node) (inline : Bool)
  | array (elements : List Node) (inline : Bool)
  | access (access : Access)
  | function (function : FunctionOf Node)
  | declarator (declarator : DeclaratorOf Node)
  | variables (kind : Text) (declarations : List (DeclaratorOf Node))
  | expression (expression : Node)
  | returns (argument : Option Node)
  /-- The import of a default export under a name. -/
  | imports (binding : Text) (source : Node)
  | exportDefault (declaration : Node)
  | program (body : List Node)

end

abbrev Function := FunctionOf Node
abbrev Declarator := DeclaratorOf Node

/-- A script: the statements of a module. -/
structure Program where
  layout : Layout := {}
  body : List Node := []

instance : Inhabited Shape := ⟨.raw [] none⟩
instance : Inhabited Node := ⟨.mk {} default⟩

namespace Node

/-- How the node stands among its neighbours. -/
def layout : Node → Layout
  | .mk layout _ => layout

/-- What the node is. -/
def shape : Node → Shape
  | .mk _ shape => shape

/-- A node that leaves its layout to the writer. -/
def ofShape (s : Shape) : Node := .mk {} s

/-- The node in another layout. -/
def withLayout (layout : Layout) : Node → Node
  | .mk _ shape => .mk layout shape

/-- The node under other leading comments. -/
def withComments (comments : List Comment) (n : Node) : Node :=
  n.withLayout { n.layout with comments }

/-- The node with another shape in its place. -/
def withShape (shape : Shape) : Node → Node
  | .mk layout _ => .mk layout shape

theorem layout_withLayout (l : Layout) (n : Node) : (n.withLayout l).layout = l := by
  cases n; rfl

theorem shape_withLayout (l : Layout) (n : Node) : (n.withLayout l).shape = n.shape := by
  cases n; rfl

end Node

/-- The word for the kind of a node. -/
def Shape.kindName : Shape → String
  | .comment .. => "Comment"
  | .raw .. => "Raw"
  | .identifier .. => "Identifier"
  | .literal .. => "Literal"
  | .member .. => "Member"
  | .call .. => "Call"
  | .assignment .. => "Assignment"
  | .property .. => "Property"
  | .object .. => "ObjectLiteral"
  | .array .. => "ArrayLiteral"
  | .access .. => "ParameterAccess"
  | .function .. => "FunctionDeclaration"
  | .declarator .. => "VariableDeclarator"
  | .variables .. => "VariableDeclaration"
  | .expression .. => "ExpressionStatement"
  | .returns .. => "ReturnStatement"
  | .imports .. => "ImportDeclaration"
  | .exportDefault .. => "ExportDefault"
  | .program .. => "Program"

end ApiRoutes.Script
