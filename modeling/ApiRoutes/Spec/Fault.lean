import ApiRoutes.Text
/-!
# What can be wrong with a model of the document
-/
namespace ApiRoutes.Spec

/-- One step on the way to the value that a complaint is about. -/
inductive Step where
  | key (name : Text)
  | index (position : Int)
  deriving DecidableEq, Repr

/-- What is wrong with a value. -/
inductive Complaint where
  | missing
  | notAMapping
  | notAList
  | notAModel
  | notText
  | notUtf8
  | notAChoice
  | notAPath
  | notAnIdentifier
  deriving DecidableEq, Repr

def Complaint.name : Complaint → String
  | .missing => "missing"
  | .notAMapping => "dict_type"
  | .notAList => "list_type"
  | .notAModel => "model_type"
  | .notText => "string_type"
  | .notUtf8 => "string_unicode"
  | .notAChoice => "literal_error"
  | .notAPath => "path_type"
  | .notAnIdentifier => "invalid_key"

/-- A complaint and the way to the value that it is about. -/
structure Fault where
  path : List Step
  complaint : Complaint
  deriving DecidableEq, Repr

def Fault.under (step : Step) (f : Fault) : Fault := { f with path := step :: f.path }

/-- A model that a value does not fit, with all the complaints in order. -/
structure Misfit where
  model : String
  faults : List Fault
  deriving DecidableEq, Repr

def Misfit.headline (m : Misfit) : Text :=
  Text.ofNat m.faults.length ++
    (if m.faults.length = 1 then " validation error for " else " validation errors for ") ++ m.model

end ApiRoutes.Spec
