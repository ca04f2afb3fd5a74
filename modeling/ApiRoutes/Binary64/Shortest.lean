import ApiRoutes.Binary64
/-!
# Shortest decimals

The decimal of a floating point number has as few digits as lead back to the number, and is the
nearest of those (`Binary64.shortest`).  The search is over grids: for one digit, two digits and so
on, the two points of the grid around the number are tried.
-/
namespace ApiRoutes

/-- The decimal number `digits · 10 ^ exponent`. -/
structure Decimal where
  digits : Nat
  exponent : Int
  deriving DecidableEq, Repr

namespace Decimal

def normalize (fuel : Nat) (d : Decimal) : Decimal :=
  match fuel with
  | 0 => d
  | fuel + 1 =>
    if d.digits ≠ 0 ∧ d.digits % 10 = 0 then normalize fuel ⟨d.digits / 10, d.exponent + 1⟩ else d

def powerOfTen (e : Int) : Nat × Nat :=
  if 0 ≤ e then (Nat.pow 10 e.toNat, 1) else (1, Nat.pow 10 (-e).toNat)

end Decimal

namespace Binary64

/-- Is `a · p ≤ b · q`, for the fractions `p` and `q`? -/
def lessEqual (a : Nat) (p : Nat × Nat) (b : Nat) (q : Nat × Nat) : Bool :=
  a * p.1 * q.2 ≤ b * q.1 * p.2

/-- A quarter of the distance to the next number above `m · 2 ^ e`, as a fraction. -/
def quarterUnit (e : Int) : Nat × Nat :=
  if 2 ≤ e then (1 <<< (e - 2).toNat, 1) else (1, 1 <<< (2 - e).toNat)

/-- Does the point `c · step` lead back to `m · 2 ^ e`?  The points that do lie within half a unit
of it, or a quarter below a power of two; the ends count when the mantissa is even. -/
def leadsBack (m : Nat) (e : Int) (c : Nat) (step : Nat × Nat) : Bool :=
  let unit := quarterUnit e
  let low := if m = 1 <<< 52 ∧ -1074 < e then 4 * m - 1 else 4 * m - 2
  let high := 4 * m + 2
  if m % 2 = 0 then lessEqual low unit c step && lessEqual c step high unit
  else !lessEqual c step low unit && !lessEqual high unit c step

/-- The exponent of the first decimal digit of `m · 2 ^ e`. -/
def leadingExponent (m : Nat) (e : Int) : Int :=
  let unit := quarterUnit e
  let guess := Int.fdiv (((m.log2 : Int) + e) * 30103) 100000 + 1
  let atLeast := fun k => lessEqual 1 (Decimal.powerOfTen k) (4 * m) unit
  if atLeast guess then guess
  else if atLeast (guess - 1) then guess - 1
  else guess - 2

/-- The better of the two points around `m · 2 ^ e` on the grid of `n` digits. -/
def gridPoint? (m : Nat) (e k : Int) (n : Nat) : Option Decimal :=
  let exponent := k - n + 1
  let step := Decimal.powerOfTen exponent
  let unit := quarterUnit e
  let num := 4 * m * unit.1 * step.2
  let den := unit.2 * step.1
  let c := num / den
  match leadsBack m e c step, leadsBack m e (c + 1) step with
  | true, false => some ⟨c, exponent⟩
  | false, true => some ⟨c + 1, exponent⟩
  | true, true => some ⟨roundQuotient num den, exponent⟩
  | false, false => none

/-- The first of the grids from `n` digits on that has a point leading back. -/
def firstGrid (m : Nat) (e k : Int) : Nat → Nat → Decimal
  | n, 0 => (gridPoint? m e k n).getD ⟨0, 0⟩
  | n, tries + 1 => (gridPoint? m e k n).getD (firstGrid m e k (n + 1) tries)

/-- The shortest decimal of `m · 2 ^ e`; seventeen digits are always enough. -/
def shortest (m : Nat) (e : Int) : Decimal :=
  if m = 0 then ⟨0, 0⟩
  else (firstGrid m e (leadingExponent m e) 1 16).normalize 20

end Binary64

end ApiRoutes
