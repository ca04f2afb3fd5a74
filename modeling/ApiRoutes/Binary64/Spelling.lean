import ApiRoutes.Text
import ApiRoutes.Binary64.Shortest
/-!
# Spelling of floating point numbers

Numbers are written with their shortest digits: positionally, always with a point, when the first
digit stands for `10 ^ -4` up to `10 ^ 15`, and otherwise with a signed exponent of two digits or
more.  Formats differ in the words for what is not finite and in whether a point is required before
an exponent (`Binary64.Spelling`).
-/
namespace ApiRoutes.Binary64

/-- What a format decides about numbers. -/
structure Spelling where
  infinity : String
  minusInfinity : String
  notANumber : String
  /-- A mantissa of one digit is written `1.0e+16`, not `1e+16`. -/
  pointBeforeExponent : Bool
  deriving Repr

def exponentText (e : Int) : List Char :=
  let digits := Nat.toDigits 10 e.natAbs
  (if e < 0 then '-' else '+') :: (if digits.length < 2 then '0' :: digits else digits)

def scientific (pointRequired : Bool) (ds : List Char) (e : Int) : List Char :=
  let mantissa := match ds with
    | [d] => if pointRequired then [d, '.', '0'] else [d]
    | d :: rest => d :: '.' :: rest
    | [] => []
  mantissa ++ 'e' :: exponentText e

/-- A positive decimal with its point after `point` digits. -/
def positional (ds : List Char) (point : Int) : List Char :=
  if point ≤ 0 then '0' :: '.' :: (List.replicate (-point).toNat '0' ++ ds)
  else if ds.length ≤ point.toNat then
    ds ++ List.replicate (point.toNat - ds.length) '0' ++ ['.', '0']
  else ds.take point.toNat ++ '.' :: ds.drop point.toNat

def magnitude (s : Spelling) (m : Nat) (e : Int) : List Char :=
  let d := shortest m e
  let ds := Nat.toDigits 10 d.digits
  let point := ds.length + d.exponent
  if m = 0 then ['0', '.', '0']
  else if -4 < point ∧ point ≤ 16 then positional ds point
  else scientific s.pointBeforeExponent ds (point - 1)

def text (s : Spelling) : Binary64 → Text
  | .finite negative m e _ =>
    Text.ofChars (if negative then '-' :: magnitude s m e else magnitude s m e)
  | .infinite negative => if negative then s.minusInfinity else s.infinity
  | .nan => s.notANumber

def Spelling.plain : Spelling := ⟨"inf", "-inf", "nan", false⟩

/-! ## Reading -/

def digitsValue (ds : List Char) : Nat := ds.foldl (fun n d => 10 * n + (d.toNat - 48)) 0

/-- The digits at the front of a list of characters, and what follows. -/
def leadingDigits (cs : List Char) : List Char × List Char :=
  (cs.takeWhile Char.isDigit, cs.dropWhile Char.isDigit)

/-- The exponent that may end a number: `e`, a sign or none, digits. -/
def readExponent? : List Char → Option Int
  | [] => some 0
  | c :: r =>
    if c = 'e' ∨ c = 'E' then
      let (negative, ds) := match r with
        | '-' :: ds => (true, ds)
        | '+' :: ds => (false, ds)
        | ds => (false, ds)
      if ds ≠ [] ∧ ds.all Char.isDigit then
        let n := digitsValue ds
        some (if negative then -(n : Int) else n)
      else none
    else none

/-- Reads digits with an optional point and exponent; one digit at least stands before or after
the point. -/
def readUnsigned? (negative : Bool) (cs : List Char) : Option Binary64 :=
  let (whole, r) := leadingDigits cs
  let (part, r) := match r with
    | '.' :: r => leadingDigits r
    | r => ([], r)
  if whole = [] ∧ part = [] then none
  else (readExponent? r).map fun e =>
    ofDecimal negative (digitsValue (whole ++ part)) (e - part.length)

/-- Reads a number in decimal form, or one of the words `inf`, `infinity` and `nan` in any case. -/
def ofChars? (cs : List Char) : Option Binary64 :=
  let (negative, r) := match cs with
    | '-' :: r => (true, r)
    | '+' :: r => (false, r)
    | r => (false, r)
  match String.ofList (r.map Char.toLower) with
  | "inf" | "infinity" => some (.infinite negative)
  | "nan" => some .nan
  | _ => readUnsigned? negative r

end ApiRoutes.Binary64
