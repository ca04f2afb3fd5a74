import ApiRoutes.Log
import ApiRoutes.Spec.Operation
import ApiRoutes.Yaml.Tree
/-!
# API documents

A document, its endpoints and its version.  Endpoints are made from the path items whenever they are
asked for, and what is skipped on the way is logged every time.
-/
namespace ApiRoutes.Spec

/-! ## Endpoints -/

def httpMethods : List String :=
  ["get", "put", "post", "delete", "options", "head", "patch", "trace"]

/-- One path of a document with its parameters and operations. -/
structure Endpoint where
  path : Text
  /-- The parameters of all operations; `none` when the document is silent about them. -/
  parameters : Option (List Parameter) := none
  /-- The operations by method, in capital letters. -/
  operations : List (Text × Operation) := []
  /-- No method has two operations. -/
  distinct : (operations.map (·.1)).Nodup := by decide

def Endpoint.verbs (e : Endpoint) : List Text := e.operations.map (·.1)

/-- The endpoint with one more operation, under a method that it has none for. -/
def Endpoint.add (e : Endpoint) (method : Text) (o : Operation)
    (h : ¬ (e.operations.any fun o => o.1 == method)) : Endpoint where
  path := e.path
  parameters := e.parameters
  operations := e.operations ++ [(method, o)]
  distinct := by
    simp only [List.any_eq_true, not_exists, not_and, beq_iff_eq] at h
    simp only [List.map_append, List.map_cons, List.map_nil, List.nodup_append]
    refine ⟨e.distinct, by simp, ?_⟩
    rintro a ha b hb rfl
    obtain ⟨o', ho', rfl⟩ := List.mem_map.1 ha
    exact h o' ho' (List.mem_singleton.1 hb)

/-- What a value gives when it is gone through. -/
def iterate : Value → Outcome (List Value)
  | .list items | .set items => .ok items
  | .map entries => .ok (entries.map (·.1))
  | .text t => .ok (t.map fun c => .text [c])
  | .bytes bs => .ok (bs.map fun b => .int b.toNat)
  | _ => .error (.misuse .notIterable)

/-- The value, or an empty mapping for one that counts as absent. -/
def orEmpty (v : Value) : Value := if v.isTruthy then v else .map []

/-- A part of a document that has to fit a model. -/
def fitting {α : Type} (origin : Option Text) (model : String) (c : Checked α) : Outcome α :=
  c.mapError fun faults => .invalidDocument origin ⟨model, faults⟩

def endpointParameters (v : Value) : Outcome (List Parameter) := do
  let items ← if v.isTruthy then iterate v else pure []
  items.mapM fun v => fitting none "ParameterSpec" (Parameter.check v)

/-- Takes the entries of a path item in, one by one. -/
def takeEntries (e : Endpoint) : List (Text × Value) → List Record × Outcome Endpoint
  | [] => ([], .ok e)
  | (key, value) :: rest =>
    if key = "parameters" then
      match endpointParameters value with
      | .ok ps => takeEntries { e with parameters := some ps } rest
      | .error f => ([], .error f)
    else
      let verb := Text.toLower key
      let method := Text.toUpper verb
      let skip (remark : Text) : List Record × Outcome Endpoint :=
        let (logs, result) := takeEntries e rest
        (⟨.debug, e.path ++ remark⟩ :: logs, result)
      if !httpMethods.any fun m => verb == m then
        skip (": ignoring path item key " ++ key.display)
      else if h : e.operations.any fun o => o.1 == method then
        skip (": duplicate method " ++ key.display ++ " ignored")
      else
        match fitting none "Operation" (Operation.ofDocument (orEmpty value)) with
        | .ok o => takeEntries (e.add method o h) rest
        | .error f => ([], .error f)

def Endpoint.ofItem (path : Text) (item : List (Text × Value)) : List Record × Outcome Endpoint :=
  takeEntries { path } item

def endpointsOf : List (Text × Option (List (Text × Value))) → List Record × Outcome (List Endpoint)
  | [] => ([], .ok [])
  | (path, item) :: rest =>
    match Endpoint.ofItem path (item.getD []) with
    | (logs, .error f) => (logs, .error f)
    | (logs, .ok e) =>
      let (more, result) := endpointsOf rest
      (logs ++ more, result.map (e :: ·))

/-! ## Documents -/

/-- An API document. -/
structure ApiDocument where
  info : List (Text × Value) := []
  paths : List (Text × Option (List (Text × Value))) := []
  /-- The fields beyond these two. -/
  others : List (Text × Value) := []
  /-- All fields as they were written, when the document was read. -/
  source : List (Yaml.Tree × Yaml.Tree) := []

namespace ApiDocument

def document (d : ApiDocument) : Entries := Yaml.Tree.eraseEntries d.source

/-- A path item, or nothing. -/
def checkItem : Value → Checked (Option (List (Text × Value)))
  | .null => .ok none
  | v => (checkMapping v).map some

def checkPaths : Value → Checked (List (Text × Option (List (Text × Value))))
  | .map entries =>
    all (entries.map fun (k, v) =>
      within (stepOf k) (both (within (.key "[key]") (checkText k)) (checkItem v)))
  | _ => fault .notAMapping

def check : Value → Checked ApiDocument
  | .map entries => do
    let ((info, paths), others) ←
      both (both (allowed "info" checkMapping entries) (allowed "paths" checkPaths entries))
        (checkOthers ["info", "paths"] entries)
    return { info := info.getD [], paths := paths.getD [], others }
  | _ => fault .notAModel

/-- The endpoints of a document, in its order. -/
def endpoints (d : ApiDocument) : List Record × Outcome (List Endpoint) := endpointsOf d.paths

/-- The document of a decoded tree.  Every path item is looked at, so that whatever is wrong with one
shows before anything is done with the document. -/
def ofTree (t : Yaml.Tree) (origin : Text) : List Record × Outcome ApiDocument :=
  match t with
  | .map _ source =>
    match fitting (some origin) "ApiDoc" (check t.erase) with
    | .error f => ([], .error f)
    | .ok d =>
      let d := { d with source }
      let (logs, result) := d.endpoints
      (logs, result.map fun _ => d)
  | _ => ([], .error (.notAMappingAtTop origin))

def ofValue (v : Value) (origin : Text) : List Record × Outcome ApiDocument :=
  ofTree (.ofValue v) origin

def valueOf? (key : Text) (entries : List (Text × Value)) : Option Value :=
  (entries.find? fun e => e.1 == key).map (·.2)

/-- The version of the API: that of its information, or else its own. -/
def version? (d : ApiDocument) : Option Text :=
  let present : Option Value → Option Value := fun v => v.filter (· != .null)
  ((present (valueOf? "version" d.info)).or (present (valueOf? "version" d.others))).map Value.plain

/-- All fields for an interchange format, those of the model first. -/
def fields (d : ApiDocument) : Outcome Entries := do
  let mapping (es : List (Text × Value)) : Outcome Value :=
    (Value.map (es.map fun e => (.text e.1, e.2))).interchange
  let paths ← d.paths.mapM fun (k, item) => do
    return (Value.text k, ← match item with
      | some es => mapping es
      | none => pure .null)
  let others ← d.others.mapM fun (k, v) => return (Value.text k, ← v.interchange)
  return (.text "info", ← mapping d.info) :: (.text "paths", .map paths) :: others

/-- The document without its paths, in the order of its fields. -/
def baseTree (d : ApiDocument) : Outcome Yaml.Tree := do
  let fields ← if d.source.isEmpty then Yaml.Tree.ofEntries <$> d.fields else pure d.source
  return .map none (Yaml.Tree.insert (.leaf none "paths") (.map none []) fields)

def base (d : ApiDocument) : Outcome Value := d.baseTree.map Yaml.Tree.erase

end ApiDocument

/-! ## Versions -/

/-- The tag of a version: the text before its first point, after a `v`. -/
def versionTag (version : Text) : Text := "v" ++ Text.before '.' version

def ApiDocument.tag (d : ApiDocument) : Text :=
  match d.version? with
  | some (c :: r) => versionTag (c :: r)
  | _ => versionTag "1.0.0"

end ApiRoutes.Spec
