import ApiRoutes.Binary64.Spelling
import ApiRoutes.Proofs.Binary64.Shortest
import ApiRoutes.Proofs.Script.Numerals
/-!
# Spelled numbers are read back

The spelling of a finite number, without its sign, is read as the number (`readUnsigned?_magnitude`): wherever the
point stands, the digits and the exponent that are read make the shortest decimal again.
-/
namespace ApiRoutes.Binary64

open Script

variable {m digits : Nat} {e exponent : Int}

/-! ## Decimals -/

theorem RoundsTo.bounds (ok : IsMantissa m e) (hm : m ≠ 0) {v : ℚ} (h : RoundsTo m e v) :
    (2 : ℚ) ^ (-1075 : Int) ≤ v ∧ v < 2 ^ (1024 : Int) := by
  obtain ⟨hlt, he, he', -⟩ := ok
  have hone : (1 : ℚ) ≤ m := by exact_mod_cast Nat.pos_of_ne_zero hm
  have hmax : (m : ℚ) + 1 ≤ 2 ^ 53 := by exact_mod_cast (hlt : m < 2 ^ 53)
  constructor
  · calc (2 : ℚ) ^ (-1075 : Int) = 1 / 2 * 2 ^ (-1074 : Int) := by
          rw [show (-1075 : Int) = -1074 - 1 from rfl, zpow_sub_one₀ two_ne_zero]
          ring
      _ ≤ 1 / 2 * 2 ^ e := by
          gcongr
          exact one_le_two
      _ ≤ lowest m e * 2 ^ e := by
          gcongr
          linarith [lowest_le m e]
      _ ≤ v := h.low
  · calc v ≤ (m + 1 / 2) * 2 ^ e := h.high
      _ < 2 ^ 53 * 2 ^ e := by
          gcongr
          linarith
      _ ≤ 2 ^ 53 * 2 ^ (971 : Int) := by
          gcongr
          exact one_le_two
      _ = 2 ^ (1024 : Int) := by
          rw [← zpow_natCast, ← zpow_add₀ two_ne_zero]
          rfl

theorem two_zpow_le {n k : Nat} (h : n ≤ 3 * k) : (2 : ℚ) ^ (n : Int) ≤ 10 ^ (k : Int) := by
  rw [zpow_natCast, zpow_natCast]
  calc (2 : ℚ) ^ n ≤ 2 ^ (3 * k) := pow_le_pow_right₀ one_le_two h
    _ = 8 ^ k := by
        rw [pow_mul]
        norm_num
    _ ≤ 10 ^ k := by
        gcongr
        norm_num

/-- The number of digits that a number has is bounded by that of its binary digits, from both sides. -/
theorem ten_pow_log2 (h : digits ≠ 0) : 10 ^ (digits.log2 / 4) ≤ digits ∧ digits < 10 ^ (digits.log2 / 3 + 1) := by
  constructor
  · calc 10 ^ (digits.log2 / 4) ≤ 16 ^ (digits.log2 / 4) := Nat.pow_le_pow_left (by decide) _
      _ = 2 ^ (4 * (digits.log2 / 4)) := by rw [Nat.pow_mul]
      _ ≤ 2 ^ digits.log2 := Nat.pow_le_pow_right (by decide) (Nat.mul_div_le _ _)
      _ ≤ digits := Nat.log2_self_le h
  · calc digits < 2 ^ (digits.log2 + 1) := Nat.lt_log2_self
      _ ≤ 2 ^ (3 * (digits.log2 / 3 + 1)) := Nat.pow_le_pow_right (by decide) (by omega)
      _ = 8 ^ (digits.log2 / 3 + 1) := by rw [Nat.pow_mul]
      _ ≤ 10 ^ (digits.log2 / 3 + 1) := Nat.pow_le_pow_left (by decide) _

/-- **Each decimal around a number is read as the number.** -/
theorem ofDecimal_eq (ok : IsMantissa m e) (hm : m ≠ 0) (negative : Bool) (h : RoundsTo m e (digits * 10 ^ exponent)) :
    ofDecimal negative digits exponent = .finite negative m e ok := by
  obtain ⟨hmin, hmax⟩ := h.bounds ok hm
  have hdigits : digits ≠ 0 := by
    rintro rfl
    rw [Nat.cast_zero, zero_mul] at hmin
    exact absurd hmin (by norm_num)
  obtain ⟨hlow, hhigh⟩ := ten_pow_log2 hdigits
  have hten : (0 : ℚ) < 10 ^ exponent := by positivity
  have hnotHuge : ¬ 400 < (digits.log2 : Int) / 4 + exponent := by
    intro hhuge
    have : (10 : ℚ) ^ (401 : Int) ≤ digits * 10 ^ exponent := calc
      (10 : ℚ) ^ (401 : Int) ≤ 10 ^ (((digits.log2 / 4 : Nat) : Int) + exponent) :=
        zpow_le_zpow_right₀ (by norm_num) (by push_cast; omega)
      _ = (10 ^ (digits.log2 / 4) : Nat) * 10 ^ exponent := by
        rw [zpow_add₀ (by norm_num), zpow_natCast]
        push_cast
        rfl
      _ ≤ digits * 10 ^ exponent := by gcongr
    exact absurd (lt_of_le_of_lt this hmax) (not_lt.2 (two_zpow_le (n := 1024) (k := 401) (by norm_num)))
  have hnotTiny : ¬ (digits.log2 : Int) / 3 + 1 + exponent < -400 := by
    intro htiny
    have : (digits : ℚ) * 10 ^ exponent < 10 ^ (-401 : Int) := calc
      (digits : ℚ) * 10 ^ exponent < (10 ^ (digits.log2 / 3 + 1) : Nat) * 10 ^ exponent := by gcongr
      _ = 10 ^ (((digits.log2 / 3 + 1 : Nat) : Int) + exponent) := by
        rw [zpow_add₀ (by norm_num), zpow_natCast]
        push_cast
        rfl
      _ ≤ 10 ^ (-401 : Int) := zpow_le_zpow_right₀ (by norm_num) (by push_cast; omega)
    refine absurd (lt_of_le_of_lt hmin this) (not_lt.2 ?_)
    rw [zpow_neg, zpow_neg]
    exact inv_anti₀ (by positivity) (two_zpow_le (n := 1075) (k := 401) (by norm_num))
  unfold ofDecimal
  simp only [if_neg hdigits, if_neg hnotHuge, if_neg hnotTiny]
  split
  · rename_i hexponent
    obtain ⟨n, rfl⟩ := Int.eq_ofNat_of_zero_le hexponent
    apply round_eq ok negative (Nat.mul_ne_zero hdigits (Nat.pow_pos (by decide)).ne') one_ne_zero
    simpa using h
  · rename_i hexponent
    obtain ⟨n, hn⟩ := Int.eq_ofNat_of_zero_le (by omega : 0 ≤ -exponent)
    obtain rfl : exponent = -n := by omega
    apply round_eq ok negative hdigits (Nat.pow_pos (by decide)).ne'
    simpa [div_eq_mul_inv] using h

/-! ## Digits -/

theorem digitsValue_append (ds es : List Char) :
    digitsValue (ds ++ es) = digitsValue ds * 10 ^ es.length + digitsValue es := by
  have hfrom : ∀ (es : List Char) (n : Nat),
      es.foldl (fun n d => 10 * n + (d.toNat - 48)) n = n * 10 ^ es.length + digitsValue es := by
    intro es
    induction es with
    | nil => intro n; simp [digitsValue]
    | cons c es ih =>
      intro n
      simp only [digitsValue, List.foldl_cons, List.length_cons]
      rw [ih, ih (10 * 0 + (c.toNat - 48))]
      ring
  rw [digitsValue, List.foldl_append, hfrom]
  rfl

theorem digitsValue_zeros (n : Nat) : digitsValue (List.replicate n '0') = 0 := by
  induction n with
  | zero => rfl
  | succ n ih =>
    rw [List.replicate_succ', digitsValue_append, ih]
    rfl

theorem digitsValue_digitChar : ∀ n < 10, digitsValue [Nat.digitChar n] = n := by decide

theorem digitsValue_toDigits (n : Nat) : digitsValue (Nat.toDigits 10 n) = n := by
  induction n using Nat.strongRecOn with
  | ind n ih =>
    by_cases hn : n < 10
    · rw [Nat.toDigits_of_lt_base hn, digitsValue_digitChar n hn]
    · rw [Nat.toDigits_of_base_le (by decide) (Nat.le_of_not_lt hn), digitsValue_append, ih _ (by omega),
        digitsValue_digitChar _ (Nat.mod_lt _ (by decide)), List.length_singleton]
      omega

/-! ## Parts of a number -/

/-- What may follow the digits of a number: nothing, or an exponent. -/
def EndsDigits (r : List Char) : Prop := ∀ c ∈ r.head?, c = 'e'

theorem EndsDigits.head {r : List Char} (h : EndsDigits r) : r.head?.any Char.isDigit = false := by
  cases r with
  | nil => rfl
  | cons c r =>
    rw [h c rfl]
    rfl

theorem leadingDigits_append {ds r : List Char} (hds : ds.all Char.isDigit = true) (hr : r.head?.any Char.isDigit = false) :
    leadingDigits (ds ++ r) = (ds, r) := by
  have hall : ∀ c ∈ ds, c.isDigit = true := List.all_eq_true.1 hds
  have hstop : r.takeWhile Char.isDigit = [] ∧ r.dropWhile Char.isDigit = r := by
    cases r with
    | nil => exact ⟨rfl, rfl⟩
    | cons c r =>
      have hc : ¬ c.isDigit = true := ne_true_of_eq_false hr
      exact ⟨List.takeWhile_cons_of_neg hc, List.dropWhile_cons_of_neg hc⟩
  unfold leadingDigits
  rw [List.takeWhile_append_of_pos hall, List.dropWhile_append_of_pos hall, hstop.1, hstop.2, List.append_nil]

theorem readUnsigned?_whole {ds r : List Char} (hne : ds ≠ []) (hds : ds.all Char.isDigit = true) (hr : EndsDigits r)
    (negative : Bool) :
    readUnsigned? negative (ds ++ r) = (readExponent? r).map fun e => ofDecimal negative (digitsValue ds) e := by
  have hlead := leadingDigits_append hds hr.head
  unfold readUnsigned?
  rw [hlead]
  rcases r with _ | ⟨c, r⟩
  · simp [hne]
  · obtain rfl : c = 'e' := hr c rfl
    simp [hne]

theorem readUnsigned?_part {ds r : List Char} (es : List Char) (hne : ds ≠ []) (hds : ds.all Char.isDigit = true)
    (hes : es.all Char.isDigit = true) (hr : EndsDigits r) (negative : Bool) :
    readUnsigned? negative (ds ++ '.' :: (es ++ r)) =
      (readExponent? r).map fun e => ofDecimal negative (digitsValue (ds ++ es)) (e - es.length) := by
  have hpoint : (('.' :: (es ++ r)).head?.any Char.isDigit) = false := rfl
  unfold readUnsigned?
  simp only [leadingDigits_append hds hpoint, leadingDigits_append hes hr.head, hne, false_and, if_false]

theorem readExponent?_exponentText (e : Int) : readExponent? ('e' :: exponentText e) = some e := by
  generalize hdigits : (if (Nat.toDigits 10 e.natAbs).length < 2 then '0' :: Nat.toDigits 10 e.natAbs
    else Nat.toDigits 10 e.natAbs) = ds
  have hne : ds ≠ [] := by
    rw [← hdigits]
    split
    · exact List.cons_ne_nil _ _
    · exact Nat.toDigits_ne_nil
  have hall : ds.all Char.isDigit = true := by
    rw [← hdigits]
    split
    · rw [List.all_cons, all_isDigit_toDigits]
      rfl
    · exact all_isDigit_toDigits _
  have hvalue : digitsValue ds = e.natAbs := by
    rw [← hdigits]
    split
    · exact digitsValue_toDigits _
    · exact digitsValue_toDigits _
  unfold exponentText readExponent?
  simp only [hdigits]
  by_cases he : e < 0
  · simp only [if_pos he, true_or, if_true, hne, hall, ne_eq, not_false_eq_true, and_self, hvalue, Option.some.injEq]
    omega
  · simp only [if_neg he, true_or, if_true, hne, hall, ne_eq, not_false_eq_true, and_self, hvalue, Option.some.injEq,
      Bool.false_eq_true, if_false]
    omega

/-! ## Spellings -/

theorem endsDigits_nil : EndsDigits [] := nofun

/-- The decimal is read as another spelling of the digits and the exponent. -/
def ReadsDecimal (cs ds : List Char) (exponent : Int) : Prop :=
  ∀ negative, ∃ (digits : Nat) (exponent' : Int), readUnsigned? negative cs = some (ofDecimal negative digits exponent') ∧
    (digits : ℚ) * 10 ^ exponent' = digitsValue ds * 10 ^ exponent

theorem readsDecimal_whole {ds r : List Char} {k exponent : Int} (hne : ds ≠ []) (hds : ds.all Char.isDigit = true)
    (hr : EndsDigits r) (hk : readExponent? r = some k) (hvalue : (10 : ℚ) ^ k = 10 ^ exponent) :
    ReadsDecimal (ds ++ r) ds exponent := by
  intro negative
  refine ⟨digitsValue ds, k, ?_, congrArg _ hvalue⟩
  rw [readUnsigned?_whole hne hds hr, hk]
  rfl

/-- Digits with a point between them are read as a decimal of the same value. -/
theorem readsDecimal_part {ds es fs r : List Char} {k exponent : Int} (hne : ds ≠ []) (hds : ds.all Char.isDigit = true)
    (hes : es.all Char.isDigit = true) (hr : EndsDigits r) (hk : readExponent? r = some k)
    (hvalue : (digitsValue (ds ++ es) : ℚ) * 10 ^ (k - es.length) = digitsValue fs * 10 ^ exponent) :
    ReadsDecimal (ds ++ '.' :: (es ++ r)) fs exponent := by
  intro negative
  refine ⟨_, _, ?_, hvalue⟩
  rw [readUnsigned?_part es hne hds hes hr, hk]
  rfl

/-- The same without an exponent. -/
theorem readsDecimal_point {ds es fs : List Char} {exponent : Int} (hne : ds ≠ []) (hds : ds.all Char.isDigit = true)
    (hes : es.all Char.isDigit = true)
    (hvalue : (digitsValue (ds ++ es) : ℚ) * 10 ^ (-(es.length : Int)) = digitsValue fs * 10 ^ exponent) :
    ReadsDecimal (ds ++ '.' :: es) fs exponent := by
  have hread : ReadsDecimal (ds ++ '.' :: (es ++ [])) fs exponent :=
    readsDecimal_part hne hds hes endsDigits_nil rfl (by rw [zero_sub, hvalue])
  rwa [List.append_nil] at hread

theorem readsDecimal_positional {ds : List Char} (hne : ds ≠ []) (hds : ds.all Char.isDigit = true) (exponent : Int) :
    ReadsDecimal (positional ds (ds.length + exponent)) ds exponent := by
  unfold positional
  -- The point stands before all digits, behind all of them, or between them.
  split
  · rename_i hpoint
    generalize hk : (-((ds.length : Int) + exponent)).toNat = k
    have hvalue : digitsValue (['0'] ++ (List.replicate k '0' ++ ds)) = digitsValue ds := by
      rw [digitsValue_append, digitsValue_append, digitsValue_zeros]
      simp [digitsValue]
    apply readsDecimal_point (List.cons_ne_nil '0' []) rfl
    · rw [List.all_append, all_isDigit_replicate, hds]
      rfl
    · rw [hvalue, List.length_append, List.length_replicate]
      congr 2
      omega
  · rename_i hpoint
    split
    · rename_i hlen
      generalize hk : ((ds.length : Int) + exponent).toNat - ds.length = k
      have hvalue : digitsValue (ds ++ List.replicate k '0' ++ ['0']) = digitsValue ds * 10 ^ (k + 1) := by
        rw [digitsValue_append, digitsValue_append, digitsValue_zeros, List.length_replicate]
        simp only [digitsValue, List.foldl_cons, List.foldl_nil, List.length_singleton]
        ring_nf
        rfl
      apply readsDecimal_point (List.append_ne_nil_of_left_ne_nil hne _) _ rfl
      · obtain rfl : exponent = k := by omega
        rw [hvalue, List.length_singleton]
        push_cast
        rw [zpow_natCast, pow_succ]
        norm_num
        ring
      · rw [List.all_append, all_isDigit_replicate, hds]
        rfl
    · rename_i hlen
      generalize hk : ((ds.length : Int) + exponent).toNat = k at hlen
      have hall : ∀ c ∈ ds, c.isDigit = true := List.all_eq_true.1 hds
      have htake : ds.take k ≠ [] := by
        simp [hne]
        omega
      apply readsDecimal_point htake
      · exact List.all_eq_true.2 fun c hc => hall c (List.mem_of_mem_take hc)
      · exact List.all_eq_true.2 fun c hc => hall c (List.mem_of_mem_drop hc)
      · rw [List.take_append_drop, List.length_drop]
        congr 2
        omega

theorem readsDecimal_scientific {ds : List Char} (hne : ds ≠ []) (hds : ds.all Char.isDigit = true) (required : Bool)
    (exponent : Int) : ReadsDecimal (scientific required ds (ds.length + exponent - 1)) ds exponent := by
  have hends : EndsDigits ('e' :: exponentText (ds.length + exponent - 1)) := by
    intro c hc
    exact (Option.some.inj hc).symm
  have hexponent := readExponent?_exponentText (ds.length + exponent - 1)
  rcases ds with _ | ⟨d, _ | ⟨d', ds⟩⟩
  · exact absurd rfl hne
  · unfold scientific
    dsimp only
    split
    · apply readsDecimal_part hne hds (rfl : ['0'].all Char.isDigit = true) hends hexponent
      rw [digitsValue_append, List.length_singleton, List.length_singleton, show digitsValue ['0'] = 0 from rfl]
      push_cast
      rw [show (1 : Int) + exponent - 1 - 1 = exponent - 1 by ring, zpow_sub_one₀ (by norm_num)]
      ring
    · apply readsDecimal_whole hne hds hends hexponent
      simp
  · rw [List.all_cons, Bool.and_eq_true] at hds
    apply readsDecimal_part (List.cons_ne_nil d []) (by simp [hds.1]) hds.2 hends hexponent
    simp only [List.length_cons, List.singleton_append]
    push_cast
    congr 2
    ring

/-- **The spelling of a number is read back as the number.** -/
theorem readUnsigned?_magnitude (s : Spelling) (ok : IsMantissa m e) (negative : Bool) :
    readUnsigned? negative (magnitude s m e) = some (.finite negative m e ok) := by
  by_cases hm : m = 0
  · subst hm
    obtain rfl : e = -1074 := ok.2.2.2.resolve_left (by decide)
    rfl
  · have hdigits : digitsValue (Nat.toDigits 10 (shortest m e).digits) = (shortest m e).digits := digitsValue_toDigits _
    have hreads : ReadsDecimal (magnitude s m e) (Nat.toDigits 10 (shortest m e).digits) (shortest m e).exponent := by
      unfold magnitude
      rw [if_neg hm]
      split
      · exact readsDecimal_positional Nat.toDigits_ne_nil (all_isDigit_toDigits _) _
      · exact readsDecimal_scientific Nat.toDigits_ne_nil (all_isDigit_toDigits _) _ _
    obtain ⟨digits, exponent, hread, hvalue⟩ := hreads negative
    rw [hread, ofDecimal_eq ok hm negative]
    rw [hvalue, hdigits]
    exact shortest_roundsTo ok hm

end ApiRoutes.Binary64
