import ApiRoutes.Spec.Model
/-!
# Parameters and operations

The models of a parameter and of one HTTP method of an endpoint.  Fields that the generator does not
read are kept, in order.
-/
namespace ApiRoutes.Spec

/-- A parameter of an operation or endpoint, known by its location and name. -/
structure Parameter where
  name : Text
  /-- Where the request carries it. -/
  location : Text
  /-- The fields beyond these two. -/
  others : List (Text × Value) := []
  /-- No field is there twice. -/
  distinct : ("name" :: "in" :: others.map (·.1) : List Text).Nodup := by decide

/-- The parameter that a value describes.  The location may also go by the name `location`. -/
def Parameter.check : Value → Checked Parameter
  | .map entries => do
    let key : Text :=
      if !Value.hasKey "in" entries && Value.hasKey "location" entries then "location" else "in"
    let ((name, location), others) ←
      both (both (required "name" checkText entries) (required key checkText entries))
        (checkOthers ["name", key] entries)
    -- Mappings have no key twice, so the fields are distinct.
    if distinct : ("name" :: "in" :: others.map (·.1) : List Text).Nodup then
      return { name, location, others, distinct }
    else fault .notAModel
  | _ => fault .notAModel

/-- All fields of a parameter for an interchange format, name and location first. -/
def Parameter.fields (p : Parameter) : Outcome Entries := do
  let others ← p.others.mapM fun (k, v) => return (Value.text k, ← v.interchange)
  return (.text "name", .text p.name) :: (.text "in", .text p.location) :: others

/-- The operation of an endpoint under one HTTP method. -/
structure Operation where
  summary : Option Text := none
  description : Option (Option Text) := none
  parameterList : Option (List Parameter) := none
  /-- The fields beyond these three. -/
  others : List (Text × Value) := []
  /-- The fields as the document has them, when the operation was read from one. -/
  document : Entries := []

namespace Operation

/-- The summary, empty by default. -/
def summaryText (o : Operation) : Text := o.summary.getD []

/-- The parameters, none by default. -/
def parameters (o : Operation) : List Parameter := o.parameterList.getD []

def checkParameters (v : Value) : Checked (List Parameter) := do
  let items ← checkList v
  all (items.mapIdx fun i v => within (.index i) (Parameter.check v))

def check : Value → Checked Operation
  | .map entries => do
    let (((summary, description), parameterList), others) ←
      both (both (both (allowed "summary" checkText entries)
        (allowed "description" checkTextOrNull entries))
        (allowed "parameters" checkParameters entries))
        (checkOthers ["summary", "description", "parameters"] entries)
    return { summary, description, parameterList, others }
  | _ => fault .notAModel

/-- The operation that a part of a document describes, which it remembers. -/
def ofDocument (v : Value) : Checked Operation := do
  let o ← check v
  return match v with
    | .map entries => { o with document := entries }
    | _ => o

/-- The fields of the operation for an interchange format: those of the model first. -/
def fields (o : Operation) : Outcome Entries := do
  let parameterList ← o.parameterList.mapM fun ps =>
    ps.mapM fun p => return Value.map (← p.fields)
  let others ← o.others.mapM fun (k, v) => return (Value.text k, ← v.interchange)
  return (o.summary.map fun t => (Value.text "summary", Value.text t)).toList ++
    (o.description.map fun t => (Value.text "description", (t.map Value.text).getD .null)).toList ++
    (parameterList.map fun ps => (Value.text "parameters", Value.list ps)).toList ++ others

/-- Every field of the operation: as the document has it, or else as the model does. -/
def documentation (o : Operation) : Outcome Entries :=
  if o.document.isEmpty then o.fields else .ok o.document

end Operation

end ApiRoutes.Spec
