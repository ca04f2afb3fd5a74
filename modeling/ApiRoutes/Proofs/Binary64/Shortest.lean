import ApiRoutes.Binary64.Shortest
import ApiRoutes.Proofs.Binary64.Rounding
/-!
# Shortest decimals lead back

The shortest decimal of a floating point number is one that is rounded to the number (`shortest_roundsTo`): a grid
point is taken only when it is (`leadsBack_iff`), and among seventeen digits there is one (`gridPoint?_isSome`).
-/
namespace ApiRoutes.Binary64

/-- The number of a decimal. -/
def decimalValue (d : Decimal) : ℚ := d.digits * 10 ^ d.exponent

variable {m c n : Nat} {e k : Int} {d : Decimal} {p q : Nat × Nat}

/-! ## Fractions -/

theorem quarterUnit_ne_zero (e : Int) : (quarterUnit e).2 ≠ 0 := by
  unfold quarterUnit
  split <;> simp [Nat.shiftLeft_eq]

theorem quarterUnit_div (e : Int) : ((quarterUnit e).1 : ℚ) / (quarterUnit e).2 = 2 ^ e / 4 := by
  unfold quarterUnit
  split
  · rename_i he
    obtain ⟨n, hn⟩ := Int.eq_ofNat_of_zero_le (by omega : 0 ≤ e - 2)
    obtain rfl : e = n + 2 := by omega
    rw [zpow_add₀ two_ne_zero]
    simp [Nat.shiftLeft_eq]
    norm_num
  · rename_i he
    obtain ⟨n, hn⟩ := Int.eq_ofNat_of_zero_le (by omega : 0 ≤ 2 - e)
    obtain rfl : e = 2 - n := by omega
    rw [zpow_sub₀ two_ne_zero]
    simp [Nat.shiftLeft_eq]
    norm_num
    ring

theorem powerOfTen_ne_zero (k : Int) : (Decimal.powerOfTen k).2 ≠ 0 := by
  unfold Decimal.powerOfTen
  split
  · exact one_ne_zero
  · exact (Nat.pow_pos (by decide)).ne'

theorem powerOfTen_div (k : Int) : ((Decimal.powerOfTen k).1 : ℚ) / (Decimal.powerOfTen k).2 = 10 ^ k := by
  unfold Decimal.powerOfTen
  split
  · rename_i hk
    obtain ⟨n, rfl⟩ := Int.eq_ofNat_of_zero_le hk
    simp
  · rename_i hk
    obtain ⟨n, hn⟩ := Int.eq_ofNat_of_zero_le (by omega : 0 ≤ -k)
    obtain rfl : k = -n := by omega
    simp

theorem lessEqual_iff {a b : Nat} (hp : p.2 ≠ 0) (hq : q.2 ≠ 0) :
    lessEqual a p b q = true ↔ (a : ℚ) * (p.1 / p.2) ≤ b * (q.1 / q.2) := by
  have hp' : (0 : ℚ) < p.2 := Nat.cast_pos.2 (Nat.pos_of_ne_zero hp)
  have hq' : (0 : ℚ) < q.2 := Nat.cast_pos.2 (Nat.pos_of_ne_zero hq)
  rw [lessEqual, decide_eq_true_iff, ← mul_div_assoc, ← mul_div_assoc, div_le_div_iff₀ hp' hq']
  exact_mod_cast Iff.rfl

/-! ## Points that lead back -/

/-- **A point leads back exactly when it is rounded to the number.** -/
theorem leadsBack_iff (hm : m ≠ 0) : leadsBack m e c (Decimal.powerOfTen k) = true ↔ RoundsTo m e (c * 10 ^ k) := by
  have hpos : (0 : ℚ) < 2 ^ e := by positivity
  generalize hlow : (if m = 1 <<< 52 ∧ -1074 < e then 4 * m - 1 else 4 * m - 2) = low
  have hlowest : (low : ℚ) * (2 ^ e / 4) = lowest m e * 2 ^ e := by
    unfold lowest
    rw [← hlow, show (1 <<< 52 : Nat) = 2 ^ 52 from rfl]
    split
    · rw [Nat.cast_sub (by omega)]
      push_cast
      ring
    · rw [Nat.cast_sub (by omega)]
      push_cast
      ring
  have hhighest : ((4 * m + 2 : Nat) : ℚ) * (2 ^ e / 4) = (m + 1 / 2) * 2 ^ e := by
    push_cast
    ring
  have hbelow : lessEqual low (quarterUnit e) c (Decimal.powerOfTen k) = true ↔ lowest m e * 2 ^ e ≤ c * 10 ^ k := by
    rw [lessEqual_iff (quarterUnit_ne_zero e) (powerOfTen_ne_zero k), quarterUnit_div, powerOfTen_div, hlowest]
  have habove : lessEqual c (Decimal.powerOfTen k) (4 * m + 2) (quarterUnit e) = true ↔
      (c : ℚ) * 10 ^ k ≤ (m + 1 / 2) * 2 ^ e := by
    rw [lessEqual_iff (powerOfTen_ne_zero k) (quarterUnit_ne_zero e), quarterUnit_div, powerOfTen_div, hhighest]
  have hlow' : lessEqual c (Decimal.powerOfTen k) low (quarterUnit e) = true ↔ (c : ℚ) * 10 ^ k ≤ lowest m e * 2 ^ e := by
    rw [lessEqual_iff (powerOfTen_ne_zero k) (quarterUnit_ne_zero e), quarterUnit_div, powerOfTen_div, hlowest]
  have hhigh' : lessEqual (4 * m + 2) (quarterUnit e) c (Decimal.powerOfTen k) = true ↔
      ((m : ℚ) + 1 / 2) * 2 ^ e ≤ c * 10 ^ k := by
    rw [lessEqual_iff (quarterUnit_ne_zero e) (powerOfTen_ne_zero k), quarterUnit_div, powerOfTen_div, hhighest]
  unfold leadsBack
  simp only [hlow]
  split
  · rename_i heven
    rw [Bool.and_eq_true, hbelow, habove]
    exact ⟨fun h => ⟨h.1, h.2, fun hodd => by omega⟩, fun h => ⟨h.low, h.high⟩⟩
  · rw [Bool.and_eq_true, Bool.not_eq_true', Bool.not_eq_true', ← Bool.not_eq_true, ← Bool.not_eq_true, hlow', hhigh',
      not_le, not_le]
    exact ⟨fun h => ⟨h.1.le, h.2.le, fun _ => h⟩, fun h => h.strict (by omega)⟩

/-! ## Grids -/

theorem roundQuotient_or (num den : Nat) : roundQuotient num den = num / den ∨ roundQuotient num den = num / den + 1 := by
  unfold roundQuotient
  dsimp only
  split_ifs <;> simp

theorem gridPoint?_roundsTo (hm : m ≠ 0) (h : gridPoint? m e k n = some d) : RoundsTo m e (decimalValue d) := by
  unfold gridPoint? at h
  simp only at h
  split at h
  · rename_i hc _
    cases h
    exact (leadsBack_iff hm).1 hc
  · rename_i _ hc
    cases h
    exact (leadsBack_iff hm).1 hc
  · rename_i hc hc'
    cases h
    rcases roundQuotient_or (4 * m * (quarterUnit e).1 * (Decimal.powerOfTen (k - n + 1)).2)
      ((quarterUnit e).2 * (Decimal.powerOfTen (k - n + 1)).1) with hr | hr
    · exact (leadsBack_iff hm).1 (by dsimp only; rw [hr]; exact hc)
    · exact (leadsBack_iff hm).1 (by dsimp only; rw [hr]; exact hc')
  · cases h

/-- The point of a grid below a number. -/
theorem gridPoint_bounds (hc : c = 4 * m * (quarterUnit e).1 * (Decimal.powerOfTen k).2 /
      ((quarterUnit e).2 * (Decimal.powerOfTen k).1)) :
    (c : ℚ) * 10 ^ k ≤ m * 2 ^ e ∧ (m : ℚ) * 2 ^ e < (c + 1 : Nat) * 10 ^ k := by
  have hten : (0 : ℚ) < 10 ^ k := by positivity
  have hstep : (Decimal.powerOfTen k).1 ≠ 0 := by
    intro h
    have := powerOfTen_div k
    rw [h, Nat.cast_zero, zero_div] at this
    exact hten.ne this
  have hden : 0 < (quarterUnit e).2 * (Decimal.powerOfTen k).1 :=
    Nat.mul_pos (Nat.pos_of_ne_zero (quarterUnit_ne_zero e)) (Nat.pos_of_ne_zero hstep)
  have hratio : ((4 * m * (quarterUnit e).1 * (Decimal.powerOfTen k).2 : Nat) : ℚ) /
      ((quarterUnit e).2 * (Decimal.powerOfTen k).1 : Nat) = m * 2 ^ e / 10 ^ k := by
    have hunit : (2 : ℚ) ^ e = 4 * ((quarterUnit e).1 / (quarterUnit e).2) := by
      rw [quarterUnit_div]
      ring
    rw [hunit, ← powerOfTen_div k]
    push_cast
    have := Nat.cast_ne_zero (R := ℚ).2 (quarterUnit_ne_zero e)
    have := Nat.cast_ne_zero (R := ℚ).2 (powerOfTen_ne_zero k)
    have := Nat.cast_ne_zero (R := ℚ).2 hstep
    field_simp
  have hden' : (0 : ℚ) < ((quarterUnit e).2 * (Decimal.powerOfTen k).1 : Nat) := Nat.cast_pos.2 hden
  constructor
  · rw [← le_div_iff₀ hten, ← hratio, le_div_iff₀ hden', hc]
    exact_mod_cast Nat.div_mul_le_self _ _
  · rw [← div_lt_iff₀ hten, ← hratio, div_lt_iff₀ hden', hc]
    exact_mod_cast (Nat.lt_mul_div_succ _ hden).trans_eq (Nat.mul_comm _ _)

/-- Of two neighbours on a grid that is fine enough, the number lies in reach of one. -/
theorem roundsTo_or {v w step : ℚ} (hm : m < 2 ^ 53) (hv : v ≤ m * 2 ^ e) (hw : m * 2 ^ e < w) (hstep : w = v + step)
    (hsmall : step * 10 ^ 16 ≤ m * 2 ^ e) : RoundsTo m e v ∨ RoundsTo m e w := by
  have hpos : (0 : ℚ) < 2 ^ e := by positivity
  have hlow : lowest m e * 2 ^ e < m * 2 ^ e := by
    apply mul_lt_mul_of_pos_right _ hpos
    unfold lowest
    split <;> linarith
  have hhigh : (m : ℚ) * 2 ^ e < (m + 1 / 2) * 2 ^ e := by
    apply mul_lt_mul_of_pos_right _ hpos
    linarith
  by_contra hnone
  rw [not_or] at hnone
  -- Both ends of the step are out of reach, so it spans the whole reach of the number.
  have hgap : (m + 1 / 2 - lowest m e) * 2 ^ e ≤ step := by
    rw [sub_mul]
    by_cases hodd : m % 2 = 1
    · have hv' : v ≤ lowest m e * 2 ^ e := by
        by_contra hlt
        exact hnone.1 ⟨(not_le.1 hlt).le, by linarith, fun _ => ⟨not_le.1 hlt, by linarith⟩⟩
      have hw' : (m + 1 / 2) * 2 ^ e ≤ w := by
        by_contra hlt
        exact hnone.2 ⟨by linarith, (not_le.1 hlt).le, fun _ => ⟨by linarith, not_le.1 hlt⟩⟩
      linarith
    · have hv' : v < lowest m e * 2 ^ e := by
        by_contra hle
        exact hnone.1 ⟨not_lt.1 hle, by linarith, fun h => absurd h hodd⟩
      have hw' : (m + 1 / 2) * 2 ^ e < w := by
        by_contra hle
        exact hnone.2 ⟨by linarith, not_lt.1 hle, fun h => absurd h hodd⟩
      linarith
  have hreach : (m : ℚ) < (m + 1 / 2 - lowest m e) * 10 ^ 16 := by
    have hcast : (m : ℚ) < 2 ^ 53 := by exact_mod_cast hm
    unfold lowest
    split
    · rename_i h
      rw [h.1]
      norm_num
    · linarith
  have hlarge : (m : ℚ) * 2 ^ e < step * 10 ^ 16 := calc
    (m : ℚ) * 2 ^ e < (m + 1 / 2 - lowest m e) * 10 ^ 16 * 2 ^ e := mul_lt_mul_of_pos_right hreach hpos
    _ = (m + 1 / 2 - lowest m e) * 2 ^ e * 10 ^ 16 := by ring
    _ ≤ step * 10 ^ 16 := by gcongr
  linarith

/-- **Seventeen digits are enough.** -/
theorem gridPoint?_isSome (ok : IsMantissa m e) (hm : m ≠ 0) (hk : (10 : ℚ) ^ k ≤ m * 2 ^ e) :
    (gridPoint? m e k 17).isSome = true := by
  unfold gridPoint?
  simp only
  generalize hc : 4 * m * (quarterUnit e).1 * (Decimal.powerOfTen (k - (17 : Nat) + 1)).2 /
    ((quarterUnit e).2 * (Decimal.powerOfTen (k - (17 : Nat) + 1)).1) = c
  obtain ⟨hbelow, habove⟩ := gridPoint_bounds hc.symm
  have hsmall : (10 : ℚ) ^ (k - (17 : Nat) + 1) * 10 ^ 16 ≤ m * 2 ^ e := by
    refine le_trans (le_of_eq ?_) hk
    rw [← zpow_natCast, ← zpow_add₀ (by norm_num)]
    congr 1
    push_cast
    ring
  have hleads : leadsBack m e c (Decimal.powerOfTen (k - (17 : Nat) + 1)) = true ∨
      leadsBack m e (c + 1) (Decimal.powerOfTen (k - (17 : Nat) + 1)) = true := by
    rw [leadsBack_iff hm, leadsBack_iff hm]
    exact roundsTo_or ok.1 hbelow habove (by push_cast; ring) hsmall
  split <;> simp_all

/-- The first guess is too large by two at most. -/
theorem powerOfTen_le_quarterUnit : ∀ n : Nat, n < 2098 → lessEqual 1
    (Decimal.powerOfTen (Int.fdiv (((n : Int) - 1074) * 30103) 100000 - 1)) 4 (quarterUnit ((n : Int) - 1074)) = true := by
  decide +kernel

theorem leadingExponent_le (ok : IsMantissa m e) (hm : m ≠ 0) : (10 : ℚ) ^ leadingExponent m e ≤ m * 2 ^ e := by
  have hleast (j : Int) : lessEqual 1 (Decimal.powerOfTen j) (4 * m) (quarterUnit e) = true ↔ (10 : ℚ) ^ j ≤ m * 2 ^ e := by
    rw [lessEqual_iff (powerOfTen_ne_zero j) (quarterUnit_ne_zero e), quarterUnit_div, powerOfTen_div]
    push_cast
    rw [one_mul, show (4 : ℚ) * m * (2 ^ e / 4) = m * 2 ^ e by ring]
  unfold leadingExponent
  simp only [hleast]
  split_ifs with hguess hbelow
  · exact hguess
  · exact hbelow
  · -- The power of two below the number is above that power of ten already.
    have hlog : (2 : ℚ) ^ ((m.log2 : Int) + e) ≤ m * 2 ^ e := by
      rw [zpow_add₀ two_ne_zero, zpow_natCast]
      gcongr
      exact_mod_cast Nat.log2_self_le hm
    have hsize : m.log2 < 53 := by
      rw [Nat.log2_lt hm]
      exact ok.1
    obtain ⟨-, he, he', -⟩ := ok
    obtain ⟨n, hn⟩ := Int.eq_ofNat_of_zero_le (by omega : 0 ≤ (m.log2 : Int) + e + 1074)
    have htable := powerOfTen_le_quarterUnit n (by omega)
    rw [show (n : Int) - 1074 = m.log2 + e by omega, lessEqual_iff (powerOfTen_ne_zero _) (quarterUnit_ne_zero _),
      quarterUnit_div, powerOfTen_div] at htable
    calc (10 : ℚ) ^ (Int.fdiv (((m.log2 : Int) + e) * 30103) 100000 + 1 - 2)
        = (1 : Nat) * 10 ^ (Int.fdiv (((m.log2 : Int) + e) * 30103) 100000 - 1) := by
          rw [Nat.cast_one, one_mul]
          congr 1
          ring
      _ ≤ (4 : Nat) * (2 ^ ((m.log2 : Int) + e) / 4) := htable
      _ = 2 ^ ((m.log2 : Int) + e) := by
          push_cast
          ring
      _ ≤ m * 2 ^ e := hlog

theorem firstGrid_roundsTo (ok : IsMantissa m e) (hm : m ≠ 0) (hk : (10 : ℚ) ^ k ≤ m * 2 ^ e) :
    ∀ tries n : Nat, n + tries = 17 → RoundsTo m e (decimalValue (firstGrid m e k n tries)) := by
  intro tries
  induction tries with
  | zero =>
    intro n hn
    obtain rfl : n = 17 := hn
    obtain ⟨d, hd⟩ := Option.isSome_iff_exists.1 (gridPoint?_isSome ok hm hk)
    rw [firstGrid, hd]
    exact gridPoint?_roundsTo hm hd
  | succ tries ih =>
    intro n hn
    rw [firstGrid]
    cases hd : gridPoint? m e k n with
    | some d => exact gridPoint?_roundsTo hm hd
    | none => exact ih (n + 1) (by omega)

theorem decimalValue_normalize (fuel : Nat) : ∀ d : Decimal, decimalValue (d.normalize fuel) = decimalValue d := by
  induction fuel with
  | zero => intro d; rfl
  | succ fuel ih =>
    intro d
    rw [Decimal.normalize]
    split
    · rename_i hd
      have hdigits : ((d.digits / 10 : Nat) : ℚ) * 10 = d.digits := by
        exact_mod_cast Nat.div_mul_cancel (Nat.dvd_of_mod_eq_zero hd.2)
      rw [ih]
      unfold decimalValue
      dsimp only
      rw [zpow_add_one₀ (by norm_num), ← mul_assoc, mul_right_comm, hdigits]
    · rfl

/-- **The shortest decimal of a number is rounded to the number.** -/
theorem shortest_roundsTo (ok : IsMantissa m e) (hm : m ≠ 0) : RoundsTo m e (decimalValue (shortest m e)) := by
  rw [shortest, if_neg hm, decimalValue_normalize]
  exact firstGrid_roundsTo ok hm (leadingExponent_le ok hm) 16 1 rfl

end ApiRoutes.Binary64
