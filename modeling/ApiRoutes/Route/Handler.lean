import ApiRoutes.Route.Parameters
/-!
# Handlers and their documentation

The statements of a route function that belong to one HTTP method: the handler, which is created
once and from then on changed through its parameters alone, and the documentation, which is written
anew every time.
-/
namespace ApiRoutes.Route

open Script

/-! ## Handlers -/

/-- Puts a node before the first return of a list of statements, or at its end. -/
def insertBeforeReturn (n : Node) (body : List Node) : List Node :=
  match Query.returns.index? body with
  | some i => body.insertIdx i n
  | none => body ++ [n]

/-- The name of the response in new handlers. -/
def defaultResponse : Text := "res"

/-- A handler that answers that it is not implemented. -/
def newHandler (verb path : Text) : Node :=
  let answer := ((Node.identifier defaultResponse).methodCall "status" [.literal (.int 501)])
    |>.methodCall "send" [.literal (.text "Not Implemented")]
  let handler : Function := {
    name := some verb
    params := [defaultRequest, defaultResponse]
    body := [.const collectionVariable (.object []), .statement answer]
    isAsync := true }
  (Node.ofShape (.function handler)).withComments
    (Node.lineComments (verb ++ " on \"" ++ path ++ "\""))

/-- The function that a node is. -/
def functionAt (i : Nat) (body : List Node) : Function :=
  match body[i]?.map Node.shape with
  | some (.function f) => f
  | _ => { name := none }

/-- Statements with another function in the place of one. -/
def putFunction (i : Nat) (f : Function) (body : List Node) : List Node :=
  body.modify i (Node.withShape (.function f))

/-- Makes sure that there is a handler for a method, and that it reads the parameters. -/
def ensureHandler (verb path : Text) (o : Spec.Operation) : Edit (List Node) Unit := do
  let query := Query.function (some verb)
  if (query.index? (← get)).isNone then
    Edit.log .debug ("creating " ++ verb ++ " handler for " ++ path)
    modify (insertBeforeReturn (newHandler verb path))
  match query.index? (← get) with
  | some i => Edit.onPart (functionAt i) (putFunction i) (mergeMethodParameters o.parameters)
  | none => return ()

/-! ## Documentation -/

/-- The statement that documents a handler. -/
def documentationStatement (verb : Text) (o : Spec.Operation) : Outcome Node := do
  let target := (Node.identifier verb).member documentationMember
  let value ← Node.ofValue (.map (← o.documentation))
  return (Node.statement (.ofShape (.assignment target value))).withComments
    (Node.lineComments ("Documentation for method " ++ verb))

/-- Documents a handler, in the place of its documentation so far if there is some. -/
def documentHandler (verb : Text) (o : Spec.Operation) : Edit (List Node) Unit := do
  let statement ← Edit.ofOutcome (documentationStatement verb o)
  modify fun body =>
    match (Query.documentation (some verb)).index? body with
    | none => insertBeforeReturn statement body
    | some i => body.modify i fun old =>
      statement.withLayout { statement.layout with blankBefore := old.layout.blankBefore }

/-! ## What a route function returns -/

/-- The object that offers a handler for each method. -/
def offered (verbs : List Text) : Node :=
  .object (verbs.map fun v => .property v (.identifier v))

/-- Makes the first return of a route function offer exactly these methods. -/
def offerHandlers (verbs : List Text) (body : List Node) : List Node :=
  let shape := Shape.returns (some (offered verbs))
  match Query.returns.index? body with
  | some i => body.modify i (Node.withShape shape)
  | none =>
    body ++ [(Node.ofShape shape).withComments
      (Node.lineComments "Export supported endpoint HTTP methods")]

end ApiRoutes.Route
