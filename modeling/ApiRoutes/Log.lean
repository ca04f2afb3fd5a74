import ApiRoutes.Text
/-!
# Log records

What the generator says while it works.  A step that logs gives its records beside its result, also
when it fails.
-/
namespace ApiRoutes

/-- How important a record is. -/
inductive Level where
  | debug | info | warning | error
  deriving DecidableEq, Repr

def Level.name : Level → String
  | .debug => "DEBUG"
  | .info => "INFO"
  | .warning => "WARNING"
  | .error => "ERROR"

def Level.isProblem : Level → Bool
  | .warning | .error => true
  | .debug | .info => false

/-- A record. -/
structure Record where
  level : Level
  text : Text
  deriving DecidableEq

def Record.line (r : Record) : Text := r.level.name ++ ": " ++ r.text

end ApiRoutes
