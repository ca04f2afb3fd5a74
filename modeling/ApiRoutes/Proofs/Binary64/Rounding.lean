import ApiRoutes.Binary64
import Mathlib.Algebra.Order.Field.Power
import Mathlib.Data.Rat.Cast.Order
import Mathlib.Tactic.FieldSimp
import Mathlib.Tactic.Linarith
import Mathlib.Tactic.NormNum
import Mathlib.Tactic.Positivity
import Mathlib.Tactic.Ring
/-!
# Rounding to floating point numbers

Around each floating point number `m · 2 ^ e` lie the fractions that are nearer to it than to others
(`RoundsTo`).  Each of them is rounded to the number, whatever its numerator and denominator (`round_eq`).
-/
namespace ApiRoutes.Binary64

/-- The least fraction that may be rounded to `m · 2 ^ e`, in units of `2 ^ e`.  The numbers below a power of
two are half as far apart as those above it. -/
def lowest (m : Nat) (e : Int) : ℚ := if m = 2 ^ 52 ∧ -1074 < e then m - 1 / 4 else m - 1 / 2

/-- The fraction is no nearer to another number than to `m · 2 ^ e`, and half between two only when `m` is even. -/
structure RoundsTo (m : Nat) (e : Int) (v : ℚ) : Prop where
  low : lowest m e * 2 ^ e ≤ v
  high : v ≤ (m + 1 / 2) * 2 ^ e
  strict : m % 2 = 1 → lowest m e * 2 ^ e < v ∧ v < (m + 1 / 2) * 2 ^ e

variable {num den m : Nat} {e E : Int} {v : ℚ}

/-! ## Quotients -/

/-- **A quotient is rounded to the whole number that it is nearest to.** -/
theorem roundQuotient_eq (hden : den ≠ 0) (hlow : 2 * (m * den) ≤ 2 * num + den) (hhigh : 2 * num ≤ 2 * (m * den) + den)
    (hstrict : m % 2 = 1 → 2 * (m * den) < 2 * num + den ∧ 2 * num < 2 * (m * den) + den) : roundQuotient num den = m := by
  have hpos : 0 < den := Nat.pos_of_ne_zero hden
  have hsplit : num = num / den * den + num % den := (Nat.div_add_mod' num den).symm
  have hrest : num % den < den := Nat.mod_lt num hpos
  unfold roundQuotient
  simp only
  generalize num / den = q at hsplit ⊢
  generalize num % den = r at hsplit hrest ⊢
  have hle : q ≤ m := by
    by_contra hlt
    have : (m + 1) * den ≤ q * den := Nat.mul_le_mul_right den (Nat.lt_of_not_le hlt)
    rw [Nat.add_mul] at this
    omega
  have hge : m ≤ q + 1 := by
    by_contra hlt
    have : (q + 2) * den ≤ m * den := Nat.mul_le_mul_right den (Nat.lt_of_not_le hlt)
    rw [Nat.add_mul] at this
    omega
  obtain rfl | rfl : m = q ∨ m = q + 1 := by omega
  · split_ifs <;> omega
  · rw [Nat.add_mul] at hlow hhigh hstrict
    split_ifs <;> omega

theorem roundQuotient_of_rat (hden : den ≠ 0) (hlow : (m : ℚ) - 1 / 2 ≤ num / den) (hhigh : (num : ℚ) / den ≤ m + 1 / 2)
    (hstrict : m % 2 = 1 → (m : ℚ) - 1 / 2 < num / den ∧ (num : ℚ) / den < m + 1 / 2) : roundQuotient num den = m := by
  have hpos : (0 : ℚ) < den := Nat.cast_pos.2 (Nat.pos_of_ne_zero hden)
  rw [le_div_iff₀ hpos] at hlow
  rw [div_le_iff₀ hpos] at hhigh
  refine roundQuotient_eq hden ?_ ?_ fun hodd => ?_
  · have : (2 * (m * den) : ℚ) ≤ 2 * num + den := by linarith
    exact_mod_cast this
  · have : (2 * num : ℚ) ≤ 2 * (m * den) + den := by linarith
    exact_mod_cast this
  · obtain ⟨h₁, h₂⟩ := hstrict hodd
    rw [lt_div_iff₀ hpos] at h₁
    rw [div_lt_iff₀ hpos] at h₂
    constructor
    · have : (2 * (m * den) : ℚ) < 2 * num + den := by linarith
      exact_mod_cast this
    · have : (2 * num : ℚ) < 2 * (m * den) + den := by linarith
      exact_mod_cast this

/-! ## Exponents -/

theorem scaled_ne_zero (num : Nat) (hden : den ≠ 0) (e : Int) : (scaled num den e).2 ≠ 0 := by
  unfold scaled
  split
  · simpa [Nat.shiftLeft_eq] using hden
  · exact hden

/-- A fraction in units of `2 ^ e`. -/
theorem scaled_div (num den : Nat) (e : Int) :
    ((scaled num den e).1 : ℚ) / (scaled num den e).2 = num / den / 2 ^ e := by
  unfold scaled
  split
  · rename_i he
    obtain ⟨n, rfl⟩ := Int.eq_ofNat_of_zero_le he
    simp only [Int.toNat_natCast, Nat.shiftLeft_eq, Nat.cast_mul, Nat.cast_pow, Nat.cast_ofNat, zpow_natCast]
    rw [div_div]
  · rename_i he
    obtain ⟨n, hn⟩ := Int.eq_ofNat_of_zero_le (by omega : 0 ≤ -e)
    obtain rfl : e = -(n : Int) := by omega
    simp only [neg_neg, Int.toNat_natCast, Nat.shiftLeft_eq, Nat.cast_mul, Nat.cast_pow, Nat.cast_ofNat, zpow_neg, zpow_natCast]
    rw [div_inv_eq_mul, div_mul_eq_mul_div]

theorem div_lt_pow_iff (hden : den ≠ 0) (k : Nat) : num / den < 2 ^ k ↔ (num : ℚ) / den < 2 ^ k := by
  have hpos := Nat.pos_of_ne_zero hden
  rw [Nat.div_lt_iff_lt_mul hpos, div_lt_iff₀ (Nat.cast_pos.2 hpos)]
  exact_mod_cast Iff.rfl

theorem fraction_bounds (hnum : num ≠ 0) (hden : den ≠ 0) :
    (2 : ℚ) ^ ((num.log2 : Int) - den.log2 - 1) ≤ num / den ∧ (num : ℚ) / den < 2 ^ ((num.log2 : Int) - den.log2 + 1) := by
  have hpos : (0 : ℚ) < den := Nat.cast_pos.2 (Nat.pos_of_ne_zero hden)
  have h₁ : (2 : ℚ) ^ (num.log2 : Int) ≤ num := by
    rw [zpow_natCast]
    exact_mod_cast Nat.log2_self_le hnum
  have h₂ : (num : ℚ) < 2 ^ ((num.log2 : Int) + 1) := by
    have := Nat.lt_log2_self (n := num)
    exact_mod_cast this
  have h₃ : (2 : ℚ) ^ (den.log2 : Int) ≤ den := by
    rw [zpow_natCast]
    exact_mod_cast Nat.log2_self_le hden
  have h₄ : (den : ℚ) < 2 ^ ((den.log2 : Int) + 1) := by
    have := Nat.lt_log2_self (n := den)
    exact_mod_cast this
  constructor
  · rw [le_div_iff₀ hpos]
    refine le_trans ?_ h₁
    calc (2 : ℚ) ^ ((num.log2 : Int) - den.log2 - 1) * den
        ≤ 2 ^ ((num.log2 : Int) - den.log2 - 1) * 2 ^ ((den.log2 : Int) + 1) := by gcongr
      _ = 2 ^ (num.log2 : Int) := by rw [← zpow_add₀ two_ne_zero]; congr 1; ring
  · rw [div_lt_iff₀ hpos]
    refine lt_of_lt_of_le h₂ ?_
    calc (2 : ℚ) ^ ((num.log2 : Int) + 1) = 2 ^ ((num.log2 : Int) - den.log2 + 1) * 2 ^ (den.log2 : Int) := by
          rw [← zpow_add₀ two_ne_zero]; congr 1; ring
      _ ≤ 2 ^ ((num.log2 : Int) - den.log2 + 1) * den := by gcongr

/-- **The exponent at which a fraction has 53 digits**, or the least one. -/
theorem fitExponent_spec (hnum : num ≠ 0) (hden : den ≠ 0) : -1074 ≤ fitExponent num den ∧
    (num : ℚ) / den / 2 ^ fitExponent num den < 2 ^ 53 ∧
    (fitExponent num den = -1074 ∨ (2 : ℚ) ^ 52 ≤ num / den / 2 ^ fitExponent num den) := by
  obtain ⟨hlow, hhigh⟩ := fraction_bounds hnum hden
  generalize hguess : max (-1074) ((num.log2 : Int) - (den.log2 : Int) - 53) = guess
  have hfit : fitExponent num den = if (num : ℚ) / den / 2 ^ guess < 2 ^ 53 then guess else guess + 1 := by
    have hiff : (scaled num den guess).1 / (scaled num den guess).2 < 1 <<< 53 ↔ (num : ℚ) / den / 2 ^ guess < 2 ^ 53 := by
      rw [show (1 <<< 53 : Nat) = 2 ^ 53 from rfl, div_lt_pow_iff (scaled_ne_zero num hden guess), scaled_div]
    unfold fitExponent
    simp only [hguess, hiff]
  have hleast : -1074 ≤ guess := hguess ▸ le_max_left _ _
  have hpos : ∀ k : Int, (0 : ℚ) < 2 ^ k := fun k => by positivity
  rw [hfit]
  split
  · rename_i hlt
    refine ⟨hleast, hlt, ?_⟩
    obtain heq | heq : guess = -1074 ∨ guess = (num.log2 : Int) - den.log2 - 53 := by omega
    · exact .inl heq
    · right
      rw [le_div_iff₀ (hpos _)]
      refine le_trans (le_of_eq ?_) hlow
      rw [heq, ← zpow_natCast, ← zpow_add₀ two_ne_zero]
      congr 1
      push_cast
      ring
  · rename_i hge
    have hhalf : (num : ℚ) / den / 2 ^ (guess + 1) = num / den / 2 ^ guess / 2 := by
      rw [zpow_add_one₀ two_ne_zero, div_div, div_div, div_div]
    refine ⟨by omega, ?_, .inr ?_⟩
    · have hle : (num.log2 : Int) - den.log2 - 53 ≤ guess := hguess ▸ le_max_right _ _
      rw [div_lt_iff₀ (hpos _), ← zpow_natCast, ← zpow_add₀ two_ne_zero]
      refine lt_of_lt_of_le hhigh (zpow_le_zpow_right₀ one_le_two ?_)
      push_cast
      omega
    · rw [hhalf]
      linarith [not_lt.1 hge]

/-! ## Rounding -/

theorem lowest_le (m : Nat) (e : Int) : (m : ℚ) - 1 / 2 ≤ lowest m e := by
  unfold lowest
  split <;> linarith

/-- A fraction around a number, in units of the number's power of two. -/
theorem RoundsTo.units (h : RoundsTo m e v) : lowest m e ≤ v / 2 ^ e ∧ v / 2 ^ e ≤ m + 1 / 2 ∧
    (m % 2 = 1 → lowest m e < v / 2 ^ e ∧ v / 2 ^ e < m + 1 / 2) := by
  have hpos : (0 : ℚ) < 2 ^ e := by positivity
  rw [le_div_iff₀ hpos, div_le_iff₀ hpos, lt_div_iff₀ hpos, div_lt_iff₀ hpos]
  exact ⟨h.low, h.high, h.strict⟩

theorem div_two_zpow (v : ℚ) (e E : Int) : v / 2 ^ E = v / 2 ^ e * 2 ^ (e - E) := by
  have hpos : (0 : ℚ) < 2 ^ e := by positivity
  rw [zpow_sub₀ two_ne_zero, ← mul_div_assoc, div_mul_cancel₀ _ hpos.ne']

/-- In larger units, a fraction around a number has less than 53 digits. -/
theorem RoundsTo.exponent_le (ok : IsMantissa m e) (h : RoundsTo m e v) (hfull : E = -1074 ∨ (2 : ℚ) ^ 52 ≤ v / 2 ^ E) : E ≤ e := by
  obtain ⟨hm, he, -, -⟩ := ok
  by_contra hgt
  rw [not_le] at hgt
  have hfull := hfull.resolve_left (by omega)
  have hmax : (m : ℚ) + 1 ≤ 2 ^ 53 := by exact_mod_cast (hm : m < 2 ^ 53)
  have hhalf : (2 : ℚ) ^ (e - E) ≤ 1 / 2 := by
    have : (2 : ℚ) ^ (e - E) ≤ 2 ^ (-1 : Int) := zpow_le_zpow_right₀ one_le_two (by omega)
    norm_num at this ⊢
    exact this
  have : (2 : ℚ) ^ 52 ≤ (m + 1 / 2) * (1 / 2) := calc
    (2 : ℚ) ^ 52 ≤ v / 2 ^ e * 2 ^ (e - E) := by rwa [← div_two_zpow]
    _ ≤ (m + 1 / 2) * (1 / 2) := mul_le_mul h.units.2.1 hhalf (by positivity) (by positivity)
  linarith

/-- In smaller units, a fraction around a number has more than 53 digits, unless it is just below a power of two. -/
theorem RoundsTo.exponent_lt (ok : IsMantissa m e) (h : RoundsTo m e v) (hleast : -1074 ≤ E) (hfits : v / 2 ^ E < 2 ^ 53)
    (hlt : E < e) : m = 2 ^ 52 ∧ E = e - 1 ∧ (2 : ℚ) ^ 53 - 1 / 2 ≤ v / 2 ^ (e - 1) := by
  have hnormal : 2 ^ 52 ≤ m := ok.2.2.2.resolve_right (by omega)
  have hlow := h.units.1
  have hpower {k : Int} (hk : k ≤ e - E) (hw : 0 ≤ v / 2 ^ e) : v / 2 ^ e * 2 ^ k ≤ v / 2 ^ E := by
    rw [div_two_zpow v e E]
    exact mul_le_mul_of_nonneg_left (zpow_le_zpow_right₀ one_le_two hk) hw
  by_cases hleastm : m = 2 ^ 52
  · have hbound : (2 : ℚ) ^ 52 - 1 / 4 ≤ v / 2 ^ e := by
      rw [lowest, if_pos ⟨hleastm, by omega⟩, hleastm] at hlow
      exact_mod_cast hlow
    refine ⟨hleastm, ?_, ?_⟩
    · by_contra hnext
      have := hpower (k := 2) (by omega) (by linarith)
      norm_num at this hbound
      linarith
    · rw [div_two_zpow v e, show e - (e - 1) = 1 by ring, zpow_one]
      linarith
  · have hmore : (2 : ℚ) ^ 52 + 1 ≤ m := by
      have : 2 ^ 52 + 1 ≤ m := by omega
      exact_mod_cast this
    have := lowest_le m e
    have := hpower (k := 1) (by omega) (by linarith)
    rw [zpow_one] at this
    linarith

/-- A number of the format is rounded to at its own exponent, or, as a power of two, from below at the one before. -/
theorem fitExponent_eq (ok : IsMantissa m e) (hnum : num ≠ 0) (hden : den ≠ 0) (h : RoundsTo m e (num / den)) :
    fitExponent num den = e ∨ m = 2 ^ 52 ∧ fitExponent num den = e - 1 ∧
      (2 : ℚ) ^ 53 - 1 / 2 ≤ num / den / 2 ^ (e - 1) ∧ (num : ℚ) / den / 2 ^ (e - 1) < 2 ^ 53 := by
  obtain ⟨hleast, hfits, hfull⟩ := fitExponent_spec hnum hden
  rcases (h.exponent_le ok hfull).eq_or_lt with heq | hlt
  · exact .inl heq
  · obtain ⟨hm, hnext, hhigh⟩ := h.exponent_lt ok hleast hfits hlt
    rw [hnext] at hfits
    exact .inr ⟨hm, hnext, hhigh, hfits⟩

/-- **Each fraction around a number is rounded to the number.** -/
theorem round_eq (ok : IsMantissa m e) (negative : Bool) (hnum : num ≠ 0) (hden : den ≠ 0)
    (h : RoundsTo m e (num / den)) : round negative num den = .finite negative m e ok := by
  have hmantissa (m' : Nat) (E : Int) (hr : roundQuotient (scaled num den E).1 (scaled num den E).2 = m')
      (hE : fitExponent num den = E) : round negative num den =
        if m' = 2 ^ 53 then ofMantissa negative (2 ^ 52) (E + 1) else ofMantissa negative m' E := by
    unfold round
    simp only [if_neg hnum, hE, hr]
    rfl
  obtain ⟨hleft, hright, hstrict⟩ := h.units
  have hlowest := lowest_le m e
  obtain hE | ⟨rfl, hE, hlow, hhigh⟩ := fitExponent_eq ok hnum hden h
  · have hround : roundQuotient (scaled num den e).1 (scaled num den e).2 = m := by
      refine roundQuotient_of_rat (scaled_ne_zero num hden e) ?_ ?_ fun hodd => ?_
      · rw [scaled_div]
        exact hlowest.trans hleft
      · rw [scaled_div]
        exact hright
      · rw [scaled_div]
        exact ⟨hlowest.trans_lt (hstrict hodd).1, (hstrict hodd).2⟩
    rw [hmantissa m e hround hE, if_neg (by exact Nat.ne_of_lt ok.1), ofMantissa, dif_pos ok]
  · have hround : roundQuotient (scaled num den (e - 1)).1 (scaled num den (e - 1)).2 = 2 ^ 53 := by
      refine roundQuotient_of_rat (scaled_ne_zero num hden _) ?_ ?_ fun hodd => absurd hodd (by norm_num)
      · rw [scaled_div]
        exact_mod_cast hlow
      · rw [scaled_div]
        push_cast
        linarith
    rw [hmantissa _ _ hround hE, if_pos rfl, sub_add_cancel, ofMantissa, dif_pos ok]

end ApiRoutes.Binary64
