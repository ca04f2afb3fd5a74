import ApiRoutes.Text
/-!
# What can be wrong with a YAML text
-/
namespace ApiRoutes.Yaml

/-- Why a scalar has no value of the kind that its tag asks for. -/
inductive ScalarFault where
  /-- No word for a truth value. -/
  | noTruth
  /-- No number, or one of more digits than are read. -/
  | noNumber
  /-- No text at all where a number is asked for. -/
  | noDigits
  /-- No form of a day or moment. -/
  | noMoment
  /-- The form of a day or moment that there is not. -/
  | impossibleMoment
  /-- The number of no code point. -/
  | noCodePoint
  /-- A number so large that it is not even looked at as that of a code point. -/
  | hugeCodePoint
  deriving DecidableEq, Repr

/-- Why a text is not YAML. -/
inductive Fault where
  /-- The text breaks a rule: what was being read, what is wrong, and on which line from 0. -/
  | broken (context : Option Text) (problem : Text) (line : Nat)
  /-- A code point that no YAML text may hold, and its position. -/
  | unacceptable (code position : Nat)
  /-- The text is well formed, but one of its scalars has no value. -/
  | scalar (fault : ScalarFault)
  deriving DecidableEq, Repr

namespace Fault

def isOfForm : Fault → Bool
  | .scalar _ => false
  | _ => true

def headline : Fault → Text
  | .broken (some context) _ _ => context
  | .broken none problem _ => problem
  | .unacceptable code _ =>
    "unacceptable character #x" ++ Text.hex 4 code ++ ": special characters are not allowed"
  | .scalar _ => []

end Fault

end ApiRoutes.Yaml
