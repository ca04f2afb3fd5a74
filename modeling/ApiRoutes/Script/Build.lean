import ApiRoutes.Failure
import ApiRoutes.Script.Node
/-!
# Building script trees

Trees for document values (`Node.ofValue`) and for the shapes that generated modules consist of.
-/
namespace ApiRoutes.Script.Node

/-! ## Expressions -/

def identifier (name : Text) : Node := ofShape (.identifier name)

def literal (value : Value) : Node := ofShape (.literal value none)

def member (object : Node) (property : Text) : Node := ofShape (.member object property false)

def call (callee : Node) (arguments : List Node) : Node := ofShape (.call callee arguments)

def methodCall (object : Node) (method : Text) (arguments : List Node) : Node :=
  (object.member method).call arguments

def object (properties : List Node) : Node := ofShape (.object properties false)

def array (elements : List Node) : Node := ofShape (.array elements false)

def property (key : Text) (value : Node) : Node := ofShape (.property key value false)

def access (a : Access) : Node := ofShape (.access a)

/-! ## Statements -/

def lineComments (text : Text) : List Comment :=
  (Text.lines text).map fun line => { text := " " ++ line }

def const (name : Text) (init : Node) : Node :=
  ofShape (.variables "const" [{ name, init := some init }])

def statement (expression : Node) : Node := ofShape (.expression expression)

/-! ## Document values -/

mutual

/-- The literal of a document value: mappings become object literals, with their keys as words,
lists array literals, and days and moments texts. -/
def ofValue : Value → Outcome Node
  | .map entries => return object (← ofEntries entries)
  | .list items => return array (← ofItems items)
  | .date d => return literal (.text d.isoText)
  | .dateTime d => return literal (.text (d.isoText 'T'))
  | .bytes bs => .error (.noLiteral (Value.bytes bs).kindName)
  | .set items => .error (.noLiteral (Value.set items).kindName)
  | .null => return literal .null
  | .bool b => return literal (.bool b)
  | .int i => return literal (.int i)
  | .float x => return literal (.float x)
  | .text t => return literal (.text t)

def ofItems : List Value → Outcome (List Node)
  | [] => return []
  | v :: rest => do
    let node ← ofValue v
    return node :: (← ofItems rest)

def ofEntries : Entries → Outcome (List Node)
  | [] => return []
  | (k, v) :: rest => do
    let node ← ofValue v
    return property k.plain node :: (← ofEntries rest)

end

end ApiRoutes.Script.Node
