import ApiRoutes.Route.Handler
import ApiRoutes.Script.Reader
import ApiRoutes.Spec.Document
/-!
# Route modules

A route module exports a function by default, which declares the parameters and handlers of one
endpoint and returns the handlers.  Merging an endpoint into a module (`mergeEndpoint`) brings these
up to date with the document and leaves all else alone; `renderEndpoint` does it from text to text.
-/
namespace ApiRoutes.Route

open Script

/-! ## The file of an endpoint -/

/-- The segments of a path, between slashes of both kinds. -/
def segments (path : Text) : List Text := Text.pieces (fun c => c == '/' || c == '\\') path

/-- Is the segment one that leads elsewhere? -/
def isDotSegment (s : Text) : Bool := s == "." || s == ".."

/-- The file of an endpoint's module.  Paths with segments that lead elsewhere are refused, so that
every module stays below the folder of its version. -/
def endpointFile (tag path : Text) : Outcome Text :=
  let name : Text :=
    match Text.trim (· == '/') path with
    | [] => "index"
    | name => name
  if (segments name).any isDotSegment then .error (.dotSegments path)
  else .ok ("src/api/" ++ tag ++ "/paths/" ++ name ++ ".js")

/-! ## The exported function -/

/-- The statements of a module. -/
def onStatements {α : Type} (e : Edit (List Node) α) : Edit Program α :=
  Edit.onPart (·.body) (fun body p => { p with body }) e

/-- A default export of a function without statements. -/
def newExport : Node :=
  .ofShape (.exportDefault (.ofShape (.function { name := some "endpoint" })))

/-- Makes sure that a module exports a function by default, and gives its position. -/
def ensureExport (path : Option Text) : Edit (List Node) Nat := do
  if (Query.defaultExport.index? (← get)).isNone then modify (· ++ [newExport])
  let body ← get
  let i := (Query.defaultExport.index? body).getD 0
  match body[i]?.map Node.shape with
  | some (.exportDefault ⟨_, .function _⟩) => return i
  | _ => throw (.malformed ⟨path, none, .exportIsNoFunction⟩)

/-- The function that a default export exports. -/
def exportedAt (i : Nat) (body : List Node) : Function :=
  match body[i]?.map Node.shape with
  | some (.exportDefault ⟨_, .function f⟩) => f
  | _ => { name := none }

/-- Statements with another function exported in the place of one. -/
def putExported (i : Nat) (f : Function) (body : List Node) : List Node :=
  body.modify i fun n =>
    match n.shape with
    | .exportDefault d => n.withShape (.exportDefault (d.withShape (.function f)))
    | _ => n

/-- Edits the function that a module exports by default. -/
def onExport {α : Type} (path : Option Text) (e : Edit Function α) : Edit Program α :=
  onStatements do
    let i ← ensureExport path
    Edit.onPart (exportedAt i) (putExported i) e

/-- Edits the statements of a function. -/
def onBody {α : Type} (e : Edit (List Node) α) : Edit Function α :=
  Edit.onPart (·.body) (fun body f => { f with body }) e

/-- Edits the first function of a name among statements; nothing when there is none. -/
def onFunctionAmong {α : Type} (name : Text) (e : Edit Function α) : Edit (List Node) (Option α) := do
  match (Query.function (some name)).index? (← get) with
  | some i => some <$> Edit.onPart (functionAt i) (putFunction i) e
  | none => return none

/-- Edits the first function of a name: one of the module, or else one in its exported function. -/
def onFunction {α : Type} (name : Text) (e : Edit Function α) : Edit Program (Option α) := do
  match ← onStatements (onFunctionAmong name e) with
  | some a => return some a
  | none => onExport none (onBody (onFunctionAmong name e))

/-! ## Merging -/

/-- Brings the statements of one method up to date. -/
def mergeOperation (path verb : Text) (o : Spec.Operation) : Edit (List Node) Unit := do
  Edit.log .info ("Processing \"" ++ verb ++ " " ++ path ++ "\" " ++ o.summaryText)
  ensureHandler verb path o
  documentHandler verb o

/-- Brings the statements of a route function up to date. -/
def mergeBody (e : Spec.Endpoint) : Edit (List Node) Unit := do
  if let some ps := e.parameters then mergeEndpointParameters ps
  e.operations.forM fun (verb, o) => mergeOperation e.path verb o
  modify (offerHandlers e.verbs)

/-- Brings a module up to date with an endpoint. -/
def mergeEndpoint (e : Spec.Endpoint) (path : Option Text) : Edit Program Unit :=
  onExport path (onBody (mergeBody e))

/-- The text of a module after an endpoint is merged into the text before, or into none. -/
def renderEndpoint (existing : Option Text) (e : Spec.Endpoint) (path : Option Text) :
    List Record × Outcome Text :=
  match existing.mapM (Program.parse · path) with
  | .error f => ([], .error f)
  | .ok p =>
    let (p, result, logs) := (mergeEndpoint e path).perform (p.getD {})
    (logs, match result with
      | .ok () => p.render
      | .error f => .error f)

end ApiRoutes.Route
