/-!
# Floating point numbers

The numbers of the IEEE format `binary64`, each kept as a sign, a whole mantissa and a power of
two.  A number comes from a fraction by rounding to nearest, a half to the even neighbour
(`Binary64.round`), and every operation rounds its exact result once.
-/
namespace ApiRoutes

/-- `m · 2 ^ e` is a number of the format in its only spelling. -/
def IsMantissa (m : Nat) (e : Int) : Prop :=
  m < 1 <<< 53 ∧ -1074 ≤ e ∧ e ≤ 971 ∧ (1 <<< 52 ≤ m ∨ e = -1074)

instance (m : Nat) (e : Int) : Decidable (IsMantissa m e) := by
  unfold IsMantissa; infer_instance

/-- A floating point number. -/
inductive Binary64 where
  | finite (negative : Bool) (mantissa : Nat) (exponent : Int) (ok : IsMantissa mantissa exponent)
  | infinite (negative : Bool)
  | nan
  deriving DecidableEq

namespace Binary64

instance : Inhabited Binary64 := ⟨.nan⟩

def zero (negative : Bool) : Binary64 := .finite negative 0 (-1074) (by decide)

/-- The number `± m · 2 ^ e`, which is infinite when it lies outside the format. -/
def ofMantissa (negative : Bool) (m : Nat) (e : Int) : Binary64 :=
  if h : IsMantissa m e then .finite negative m e h else .infinite negative

/-- The whole part and twice the rest of `num / den`, rounded to nearest, a half to even. -/
def roundQuotient (num den : Nat) : Nat :=
  let q := num / den
  let r := num % den
  if 2 * r < den then q
  else if den < 2 * r then q + 1
  else if q % 2 = 0 then q else q + 1

/-- `num / den / 2 ^ e` as a quotient of natural numbers. -/
def scaled (num den : Nat) (e : Int) : Nat × Nat :=
  if 0 ≤ e then (num, den <<< e.toNat) else (num <<< (-e).toNat, den)

/-- The exponent at which `num / den` has a mantissa of 53 digits, or the least exponent. -/
def fitExponent (num den : Nat) : Int :=
  let guess := max (-1074) ((num.log2 : Int) - (den.log2 : Int) - 53)
  let (n, d) := scaled num den guess
  if n / d < 1 <<< 53 then guess else guess + 1

/-- The number nearest to `± num / den`, where `den` is not zero. -/
def round (negative : Bool) (num den : Nat) : Binary64 :=
  if num = 0 then zero negative
  else
    let e := fitExponent num den
    let (n, d) := scaled num den e
    let m := roundQuotient n d
    if m = 1 <<< 53 then ofMantissa negative (1 <<< 52) (e + 1) else ofMantissa negative m e

/-- The number nearest to `± digits · 10 ^ exponent`. -/
def ofDecimal (negative : Bool) (digits : Nat) (exponent : Int) : Binary64 :=
  if digits = 0 then zero negative
  else
    let size := (digits.log2 : Int) / 4 + exponent
    if 400 < size then .infinite negative
    else if (digits.log2 : Int) / 3 + 1 + exponent < -400 then zero negative
    else if 0 ≤ exponent then round negative (digits * Nat.pow 10 exponent.toNat) 1
    else round negative digits (Nat.pow 10 (-exponent).toNat)

def ofInt (i : Int) : Binary64 := round (i < 0) i.natAbs 1

/-- The sign of a number; zeros have one too. -/
def isNegative : Binary64 → Bool
  | .finite s .. => s
  | .infinite s => s
  | .nan => false

def neg : Binary64 → Binary64
  | .finite s m e h => .finite (!s) m e h
  | .infinite s => .infinite (!s)
  | .nan => .nan

/-- A finite number as a fraction with its sign: `(negative, num, den)`. -/
def fraction? : Binary64 → Option (Bool × Nat × Nat)
  | .finite s m e _ =>
    if 0 ≤ e then some (s, m <<< e.toNat, 1) else some (s, m, 1 <<< (-e).toNat)
  | _ => none

def signed (s : Bool) (n : Nat) : Int := if s then -(n : Int) else n

/-- The sum, rounded once.  A sum of opposite numbers is the positive zero. -/
def add (a b : Binary64) : Binary64 :=
  match a, b with
  | .nan, _ | _, .nan => .nan
  | .infinite s, .infinite t => if s = t then .infinite s else .nan
  | .infinite s, _ => .infinite s
  | _, .infinite t => .infinite t
  | .finite s .., .finite t .. =>
    match a.fraction?, b.fraction? with
    | some (_, n, d), some (_, n', d') =>
      let total := signed s n * d' + signed t n' * d
      if total = 0 then zero (s && t) else round (total < 0) total.natAbs (d * d')
    | _, _ => .nan

/-- The product, rounded once. -/
def mul (a b : Binary64) : Binary64 :=
  match a, b with
  | .nan, _ | _, .nan => .nan
  | .infinite s, .infinite t => .infinite (s != t)
  | .infinite s, .finite t m _ _ => if m = 0 then .nan else .infinite (s != t)
  | .finite t m _ _, .infinite s => if m = 0 then .nan else .infinite (s != t)
  | .finite s .., .finite t .. =>
    match a.fraction?, b.fraction? with
    | some (_, n, d), some (_, n', d') => round (s != t) (n * n') (d * d')
    | _, _ => .nan

/-- The integer that a number is, if it is one. -/
def toInt? : Binary64 → Option Int
  | .finite s m e _ =>
    if 0 ≤ e then some (signed s (m <<< e.toNat))
    else if m % (1 <<< (-e).toNat) = 0 then some (signed s (m >>> (-e).toNat))
    else none
  | _ => none

/-- Numbers are compared by value: the zeros are equal, and `nan` differs from itself. -/
def sameValue : Binary64 → Binary64 → Bool
  | .nan, _ | _, .nan => false
  | .infinite s, .infinite t => s == t
  | .finite s m e _, .finite t n f _ => m == n && e == f && (s == t || m == 0)
  | _, _ => false

end Binary64

end ApiRoutes
