import ApiRoutes.Edit
import ApiRoutes.Route.Access
import ApiRoutes.Script.Query
/-!
# Collections of parameters

Two collections are kept in step with the document, each in a variable `parameters`: an array of
objects that describe the parameters of all methods, and in every handler an object whose properties
read the parameters of its method.  What people added to either stays.
-/
namespace ApiRoutes.Route

open Script

/-- The variable that holds a collection. -/
def collectionVariable : Text := "parameters"

/-- The two kinds of collections. -/
inductive Collection where
  | array
  | object
  deriving DecidableEq

namespace Collection

/-- The word for a kind of collection. -/
def kindName : Collection → String
  | .array => "ArrayLiteral"
  | .object => "ObjectLiteral"

/-- A collection without members. -/
def empty : Collection → Node
  | .array => .array []
  | .object => .object []

/-- The members of a node that is a collection of the kind. -/
def members? (k : Collection) (n : Node) : Option (List Node) :=
  match k, n.shape with
  | .array, .array es _ => some es
  | .object, .object ps _ => some ps
  | _, _ => none

/-- The node with other members. -/
def withMembers (members : List Node) (n : Node) : Node :=
  match n.shape with
  | .array _ inline => n.withShape (.array members inline)
  | .object _ inline => n.withShape (.object members inline)
  | _ => n

end Collection

/-! ## The variable -/

/-- Changes the first variable of a name. -/
def mapDeclarator (name : Text) (f : Declarator → Declarator) : List Declarator → List Declarator
  | [] => []
  | d :: ds => if d.name = name then f d :: ds else d :: mapDeclarator name f ds

/-- Changes the variable that holds the collection of a list of statements. -/
def mapVariable (f : Declarator → Declarator) (body : List Node) : List Node :=
  match (Query.variables (some collectionVariable)).index? body with
  | none => body
  | some i => body.modify i fun n =>
    match n.shape with
    | .variables kind ds => n.withShape (.variables kind (mapDeclarator collectionVariable f ds))
    | _ => n

/-- The variable that holds the collection of a list of statements. -/
def declaration? (body : List Node) : Option Declarator :=
  match ((Query.variables (some collectionVariable)).first? body).map Node.shape with
  | some (.variables _ ds) => Node.declarator? collectionVariable ds
  | _ => none

/-- The members of the collection of a list of statements. -/
def collectionOf (k : Collection) (body : List Node) : List Node :=
  (((declaration? body).bind (·.init)).bind k.members?).getD []

/-- A list of statements with other members in its collection. -/
def withCollection (members : List Node) (body : List Node) : List Node :=
  mapVariable (fun d => { d with init := d.init.map (Collection.withMembers members) }) body

/-- Makes sure that there is a collection of the kind: a variable that is missing is declared first
of all, one that holds something else starts anew. -/
def ensureCollection (k : Collection) : Edit (List Node) Unit := do
  match declaration? (← get) with
  | none => modify fun body => Node.const collectionVariable k.empty :: body
  | some d =>
    if (d.init.bind k.members?).isNone then
      Edit.log .info ("rewriting parameters declaration as " ++ k.kindName)
      modify (mapVariable fun d => { d with init := some k.empty })

/-! ## Parameters of an endpoint -/

/-- The property with another value; that of a property with the key, or else a new last one. -/
def putField (key : Text) (value : Node) (properties : List Node) : List Node :=
  match (Query.property (some key)).index? properties with
  | none => properties ++ [Node.property key value]
  | some i => properties.modify i fun n =>
    match n.shape with
    | .property k _ shorthand => n.withShape (.property k value shorthand)
    | _ => n

/-- Puts all the fields of a parameter into the properties of the object that describes it. -/
def putFields (properties : List Node) : Entries → Outcome (List Node)
  | [] => .ok properties
  | (k, v) :: rest => do
    let value ← Node.ofValue v
    putFields (putField k.plain value properties) rest

/-- Puts a parameter into the array: into the object that describes it, or else into a new last
one. -/
def putParameter (p : Spec.Parameter) : Edit (List Node) Unit := do
  let fields ← Edit.ofOutcome p.fields
  let elements ← get
  match (Query.parameterEntry (.text p.location) (.text p.name)).index? elements with
  | none =>
    let entry ← Edit.ofOutcome (Node.ofValue (.map fields))
    set (elements ++ [entry])
  | some i =>
    match elements[i]?.map Node.shape with
    | some (.object properties inline) =>
      let properties ← Edit.ofOutcome (putFields properties fields)
      set (elements.modify i (Node.withShape (.object properties inline)))
    | _ => return ()

/-- Puts parameters into the array of a list of statements. -/
def mergeEndpointParameters (ps : List Spec.Parameter) : Edit (List Node) Unit := do
  ensureCollection .array
  Edit.onPart (collectionOf .array) withCollection (ps.forM putParameter)

/-! ## Parameters of a method -/

/-- The access that a value is recognised as, in its place; what is an access already stays. -/
def tagValue (key : Text) (value : Node) : Node :=
  match value.shape, recogniseAccess? value key with
  | .access _, _ => value
  | _, some a => .access a
  | _, none => value

/-- A property whose value is recognised as an access. -/
def tagProperty (n : Node) : Node :=
  match n.shape with
  | .property key value false => n.withShape (.property key (tagValue key value) false)
  | _ => n

/-- Puts an access into the object: into the property that reads the parameter, or else into a new
last one. -/
def putAccess (properties : List Node) (a : Access) : List Node :=
  match (Query.parameterAccess (.text a.location) (.text a.name)).index? properties with
  | none => properties ++ [Node.property a.name (.access a)]
  | some i => properties.modify i fun n =>
    match n.shape with
    | .property k _ shorthand => n.withShape (.property k (.access a) shorthand)
    | _ => n

/-- Puts parameters into the object of a handler. -/
def mergeMethodParameters (ps : List Spec.Parameter) : Edit Function Unit := do
  let request := requestName (← get).params
  let accesses ← Edit.ofOutcome (ps.mapM (accessTo request))
  Edit.onPart (·.body) (fun body f => { f with body }) do
    ensureCollection .object
    modify fun body =>
      withCollection (accesses.foldl putAccess ((collectionOf .object body).map tagProperty)) body

end ApiRoutes.Route
