import ApiRoutes.Value
import ApiRoutes.Script.Quoted
/-!
# Numbers of scripts

The value of a number from its spelling (`numberValue?`).  Spellings that an integer could have are
integers, other decimals floating point numbers.
-/
namespace ApiRoutes.Script

/-- The value of digits in a base; `none` when one is no digit of it. -/
def digitsIn? (base : Nat) (ds : List Char) : Option Nat :=
  if ds.isEmpty then none
  else ds.foldlM (fun n c =>
    match Text.hexDigit? (.scalar c) with
    | some d => if d < base then some (base * n + d) else none
    | none => none) 0

def maxIntegerDigits : Nat := 4300

/-- The integer that a spelling is of: digits, or digits in another base after a zero and a
letter.  Zero alone may be written with more zeros before it. -/
def integer? (cs : List Char) : Option Nat :=
  match cs with
  | '0' :: 'x' :: ds | '0' :: 'X' :: ds => digitsIn? 16 ds
  | '0' :: 'o' :: ds | '0' :: 'O' :: ds => digitsIn? 8 ds
  | '0' :: 'b' :: ds | '0' :: 'B' :: ds => digitsIn? 2 ds
  | '0' :: ds => if ds.all (· == '0') then some 0 else none
  | ds => if maxIntegerDigits < ds.length then none else digitsIn? 10 ds

/-- The value of a number; underscores between digits do not count. -/
def numberValue? (spelling : List Char) : Option Value :=
  let cs := spelling.filter (· != '_')
  match integer? cs with
  | some n => some (.int n)
  | none => (Binary64.readUnsigned? false cs).map .float

end ApiRoutes.Script
