import ApiRoutes.Failure
import ApiRoutes.Script.Node
/-!
# Finding declarations

Declarations are found among their siblings by kind and name (`Query`).  What counts as the handler
of a method or as its documentation is said here and nowhere else.
-/
namespace ApiRoutes.Script

/-- The member that holds the documentation of a handler. -/
def documentationMember : Text := "apiDoc"

/-- What to look for.  A name of `none` is that of what has no name. -/
inductive Query where
  | function (name : Option Text)
  /-- A declaration of a variable, perhaps among others. -/
  | variables (name : Option Text)
  | defaultExport
  | returns
  /-- An assignment of documentation to a function. -/
  | documentation (name : Option Text)
  | imports (name : Option Text)
  /-- A call of a function as a statement. -/
  | invocation (name : Option Text)
  | property (key : Option Text)
  /-- An object that describes the parameter of a location and name. -/
  | parameterEntry (location name : Value)
  /-- A property that reads the parameter of a location and name. -/
  | parameterAccess (location name : Value)

namespace Node

/-- Is the node a property with this key? -/
def isProperty (key : Text) (n : Node) : Bool :=
  match n.shape with
  | .property k _ _ => k == key
  | _ => false

/-- The scalar under a key among the properties of an object; nothing when there is none. -/
def scalarAt (key : Text) (properties : List Node) : Value :=
  match (properties.find? (isProperty key)).map shape with
  | some (.property _ ⟨_, .literal v _⟩ _) => v
  | _ => .null

/-- The variable of a name among those of a declaration. -/
def declarator? (name : Text) (declarations : List Declarator) : Option Declarator :=
  declarations.find? (·.name == name)

end Node

namespace Query

/-- Is a node what is looked for? -/
def finds (q : Query) (n : Node) : Bool :=
  match q, n.shape with
  | .function name, .function f => f.name == name
  | .variables name, .variables _ ds => ds.any fun d => some d.name == name
  | .defaultExport, .exportDefault _ => true
  | .returns, .returns _ => true
  | .documentation name,
      .expression ⟨_, .assignment ⟨_, .member ⟨_, .identifier object⟩ member _⟩ _⟩ =>
    member == documentationMember && some object == name
  | .imports name, .imports binding _ => some binding == name
  | .invocation name, .expression ⟨_, .call ⟨_, .identifier callee⟩ _⟩ => some callee == name
  | .property key, .property k _ _ => some k == key
  | .parameterEntry location name, .object properties _ =>
    (Node.scalarAt "in" properties).sameValue location &&
      (Node.scalarAt "name" properties).sameValue name
  | .parameterAccess location name, .property key ⟨_, .access a⟩ _ =>
    (Value.text key).sameValue name && (Value.text a.location).sameValue location
  | _, _ => false

/-- The position of the first node that is what is looked for. -/
def index? (q : Query) (scope : List Node) : Option Nat := scope.findIdx? q.finds

/-- The first node that is what is looked for. -/
def first? (q : Query) (scope : List Node) : Option Node := scope.find? q.finds

/-- The query for a kind of declaration.  A pair names a parameter by location and name, any other
declaration goes by a single name. -/
def ofKind (kind : Text) (name : Option Text) (pair : Value × Value) : Outcome Query :=
  if kind = "function" then .ok (.function name)
  else if kind = "variable" then .ok (.variables name)
  else if kind = "default-export" then .ok .defaultExport
  else if kind = "return" then .ok .returns
  else if kind = "documentation" then .ok (.documentation name)
  else if kind = "import" then .ok (.imports name)
  else if kind = "invocation" then .ok (.invocation name)
  else if kind = "property" then .ok (.property name)
  else if kind = "parameter-entry" then .ok (.parameterEntry pair.1 pair.2)
  else if kind = "parameter-access" then .ok (.parameterAccess pair.1 pair.2)
  else .error (.unknownKind kind)

end Query

end ApiRoutes.Script
