import ApiRoutes.Proofs.Script.Plain
import ApiRoutes.Proofs.Text
/-!
# Spelled numbers

The writer spells every number as one that the reader knows, perhaps after a minus, or as one of the
words for what is not finite (`spellValue_number`).
-/
namespace ApiRoutes.Script

/-! ## Decimals -/

theorem digitRun_append {p : Char → Bool} (hu : p '_' = false) {r : List Char} (hr : r.head?.any p = false)
    (hr' : r.head? ≠ some '_') : ∀ {ds : List Char}, ds.all p = true → digitRun p (ds ++ r) = ds.length
  | [], _ => digitRun_eq_zero hr
  | [d], hds => by
    have hd : p d = true := by simpa using hds
    cases r with
    | nil => exact if_pos hd
    | cons c r =>
      have hc : (c == '_') = false := beq_eq_false_iff_ne.2 fun h => hr' (by rw [h]; rfl)
      rw [List.singleton_append, digitRun, if_pos hd, hc, digitRun_eq_zero hr]
      rfl
  | d :: e :: ds, hds => by
    rw [List.all_cons, Bool.and_eq_true] at hds
    have he : (e == '_') = false := beq_eq_false_iff_ne.2 fun h => by
      have := hds.2
      rw [h, List.all_cons, hu] at this
      cases this
    have ih := digitRun_append hu hr hr' hds.2
    rw [List.cons_append] at ih
    rw [List.cons_append, List.cons_append, digitRun, if_pos hds.1, he, ih]
    rfl

/-- The digits before the point of a number: at least one, and no zero before others. -/
structure IsWhole (ds : List Char) : Prop where
  digits : ds.all Char.isDigit = true
  lead : ds ≠ [] ∧ (ds.head? = some '0' → ds = ['0'])

/-- The end of a number after its whole digits, as long as it should be. -/
structure IsTail (r : List Char) : Prop where
  head : r.head?.all fun c => c == '.' || c == 'e'
  length : (if r.head? = some '.' then fractionLength false r else exponentLength r) = r.length

theorem IsTail.head_not {r : List Char} (h : IsTail r) {p : Char → Bool} (hp : (p '.' || p 'e') = false) :
    r.head?.any p = false := by
  have := h.head
  rw [Bool.or_eq_false_iff] at hp
  cases r with
  | nil => rfl
  | cons c r =>
    simp only [List.head?_cons, Option.all_some, Bool.or_eq_true, beq_iff_eq] at this
    rcases this with rfl | rfl
    · exact hp.1
    · exact hp.2

theorem isNumeral_of_parts {ds r : List Char} (hd : IsWhole ds) (hr : IsTail r) : isNumeral (ds ++ r) = true := by
  obtain ⟨hdigits, hne, hzero⟩ := hd
  obtain ⟨d, ds, rfl⟩ := List.exists_cons_of_ne_nil hne
  have hrun : digitRun Char.isDigit (d :: ds ++ r) = (d :: ds).length := by
    refine digitRun_append (by decide) (hr.head_not (by decide)) (fun h => ?_) hdigits
    have := hr.head_not (p := (· == '_')) (by decide)
    rw [h] at this
    cases this
  have hbased : basedLength (d :: ds ++ r) = 0 ∧
      wholeLength (d :: ds).length (d :: ds ++ r) = (d :: ds).length := by
    by_cases h0 : d = '0'
    · subst h0
      obtain rfl : ds = [] := (List.cons.inj (hzero rfl)).2
      refine ⟨?_, wholeLength_one _⟩
      have := hr.head
      cases r with
      | nil => rfl
      | cons c r =>
        simp only [List.head?_cons, Option.all_some, Bool.or_eq_true, beq_iff_eq] at this
        rcases this with rfl | rfl <;> rfl
    · exact ⟨basedLength_of_ne h0 _, wholeLength_of_ne h0 _ _⟩
  rw [isNumeral, Bool.and_eq_true, beq_iff_eq]
  refine ⟨by rw [List.all_cons, Bool.and_eq_true] at hdigits; exact hdigits.1, ?_⟩
  rw [numberLength_eq]
  simp only [hbased.1, hrun, hbased.2, List.drop_left]
  rw [if_neg (by simp), if_neg (by simp), hr.length]
  have hn : r.head? ≠ some 'n' := fun h => by
    have := hr.head_not (p := (· == 'n')) (by decide)
    rw [h] at this
    cases this
  rw [if_neg hn, List.length_append]
  split <;> omega

theorem isTail_nil : IsTail [] := ⟨rfl, rfl⟩

theorem isTail_exponent {sign : Char} {es : List Char} (hs : sign = '+' ∨ sign = '-')
    (hes : es.all Char.isDigit = true) (hne : es ≠ []) : IsTail ('e' :: sign :: es) := by
  have hrun : digitRun Char.isDigit es = es.length := by
    have := digitRun_append (p := Char.isDigit) (r := []) (by decide) rfl nofun hes
    rwa [List.append_nil] at this
  have hpos : es.length ≠ 0 := fun h => hne (List.length_eq_zero_iff.1 h)
  refine ⟨rfl, (if_neg (by simp)).trans ?_⟩
  have hlen : exponentLength ('e' :: sign :: es) =
      if digitRun Char.isDigit es = 0 then 0 else 1 + 1 + digitRun Char.isDigit es := by
    rcases hs with rfl | rfl <;> rfl
  rw [hlen, hrun, if_neg hpos, List.length_cons, List.length_cons]
  omega

theorem isTail_fraction {fs r : List Char} (hfs : fs.all Char.isDigit = true) (hr : IsTail r)
    (hpoint : r.head? ≠ some '.') : IsTail ('.' :: fs ++ r) := by
  have hrun : digitRun Char.isDigit (fs ++ r) = fs.length := by
    refine digitRun_append (by decide) (hr.head_not (by decide)) (fun h => ?_) hfs
    have := hr.head_not (p := (· == '_')) (by decide)
    rw [h] at this
    cases this
  have hlen := hr.length
  rw [if_neg hpoint] at hlen
  have hfraction : fractionLength false ('.' :: (fs ++ r)) = 1 + digitRun Char.isDigit (fs ++ r) +
      exponentLength ((fs ++ r).drop (digitRun Char.isDigit (fs ++ r))) := rfl
  refine ⟨rfl, (if_pos rfl).trans ?_⟩
  rw [List.cons_append, hfraction, hrun, List.drop_left, hlen, List.length_cons, List.length_append]
  omega

/-! ## Digits -/

theorem all_isDigit_toDigits (n : Nat) : (Nat.toDigits 10 n).all Char.isDigit = true :=
  List.all_eq_true.2 fun _ h => Nat.isDigit_of_mem_toDigits (by decide) (by decide) h

theorem head?_toDigits (n : Nat) (hn : n ≠ 0) : (Nat.toDigits 10 n).head? ≠ some '0' := by
  induction n using Nat.strongRecOn with
  | ind n ih =>
    by_cases h : n < 10
    · rw [Nat.toDigits_of_lt_base h]
      simpa using hn
    · have hdiv : n / 10 ≠ 0 := by omega
      have hne : Nat.toDigits 10 (n / 10) ≠ [] := Nat.toDigits_ne_nil
      rw [Nat.toDigits_of_base_le (by decide) (Nat.le_of_not_lt h), List.head?_append_of_ne_nil _ hne]
      exact ih _ (by omega) hdiv

theorem isWhole_toDigits (n : Nat) : IsWhole (Nat.toDigits 10 n) := by
  refine ⟨all_isDigit_toDigits n, Nat.toDigits_ne_nil, fun h => ?_⟩
  by_cases hn : n = 0
  · rw [hn, Nat.toDigits_zero]
  · exact absurd h (head?_toDigits n hn)

/-! ## The shortest digits of a number -/

open Binary64

theorem leadsBack_zero {m : Nat} (hm : m ≠ 0) (e k : Int) :
    leadsBack m e 0 (Decimal.powerOfTen k) = false := by
  have hunit : 0 < (quarterUnit e).1 := by
    rw [quarterUnit]
    split
    · exact Nat.pos_of_ne_zero (by simp [Nat.shiftLeft_eq])
    · exact Nat.one_pos
  have hstep : 0 < (Decimal.powerOfTen k).2 := by
    rw [Decimal.powerOfTen]
    split
    · exact Nat.one_pos
    · exact Nat.pow_pos (by decide)
  have hlow {low : Nat} (h : low ≠ 0) : lessEqual low (quarterUnit e) 0 (Decimal.powerOfTen k) = false := by
    have : 0 < low * (quarterUnit e).1 * (Decimal.powerOfTen k).2 :=
      Nat.mul_pos (Nat.mul_pos (Nat.pos_of_ne_zero h) hunit) hstep
    simp only [lessEqual, decide_eq_false_iff_not]
    omega
  have hzero (low : Nat) : lessEqual 0 (Decimal.powerOfTen k) low (quarterUnit e) = true := by
    simp [lessEqual]
  rw [leadsBack]
  split
  · rw [hlow (by split <;> omega)]
    rfl
  · rw [hzero]
    rfl

theorem gridPoint?_ne_zero {m n : Nat} {e k : Int} {d : Decimal} (hm : m ≠ 0)
    (h : gridPoint? m e k n = some d) : d.digits ≠ 0 := by
  rw [gridPoint?] at h
  have hne {c : Nat} (hc : leadsBack m e c (Decimal.powerOfTen (k - n + 1)) = true) : c ≠ 0 := by
    rintro rfl
    rw [leadsBack_zero hm] at hc
    cases hc
  split at h
  · rename_i hc _
    cases h
    exact hne hc
  · cases h
    exact Nat.succ_ne_zero _
  · rename_i hc _
    cases h
    have := hne hc
    dsimp only [roundQuotient]
    split
    · exact this
    · split
      · exact Nat.succ_ne_zero _
      · split
        · exact this
        · exact Nat.succ_ne_zero _
  · cases h

/-- The search finds digits other than zero, or nothing. -/
theorem firstGrid_digits {m : Nat} (hm : m ≠ 0) (e k : Int) (tries : Nat) :
    ∀ n, (firstGrid m e k n tries).digits ≠ 0 ∨ firstGrid m e k n tries = ⟨0, 0⟩ := by
  induction tries with
  | zero =>
    intro n
    rw [firstGrid]
    cases h : gridPoint? m e k n with
    | none => exact .inr rfl
    | some d => exact .inl (gridPoint?_ne_zero hm h)
  | succ tries ih =>
    intro n
    rw [firstGrid]
    cases h : gridPoint? m e k n with
    | none => exact ih _
    | some d => exact .inl (gridPoint?_ne_zero hm h)

theorem normalize_digits (fuel : Nat) : ∀ d : Decimal, d.digits ≠ 0 → (d.normalize fuel).digits ≠ 0 := by
  induction fuel with
  | zero => exact fun _ h => h
  | succ fuel ih =>
    intro d h
    rw [Decimal.normalize]
    split
    · rename_i hd
      exact ih _ (by dsimp only; omega)
    · exact h

theorem shortest_digits {m : Nat} (hm : m ≠ 0) (e : Int) :
    (shortest m e).digits ≠ 0 ∨ shortest m e = ⟨0, 0⟩ := by
  rw [shortest, if_neg hm]
  rcases firstGrid_digits hm e (leadingExponent m e) 16 1 with h | h
  · exact .inl (normalize_digits _ _ h)
  · exact .inr (by rw [h]; rfl)

/-! ## Texts of numbers -/

theorem all_isDigit_replicate (n : Nat) : (List.replicate n '0').all Char.isDigit = true := by
  rw [List.all_replicate]
  split <;> rfl

theorem exists_exponentText (e : Int) : ∃ sign es, exponentText e = sign :: es ∧ (sign = '+' ∨ sign = '-') ∧
    es ≠ [] ∧ es.all Char.isDigit = true := by
  refine ⟨_, _, rfl, by split <;> simp, ?_, ?_⟩
  · split
    · exact List.cons_ne_nil _ _
    · exact Nat.toDigits_ne_nil
  · split
    · rw [List.all_cons, all_isDigit_toDigits]
      rfl
    · exact all_isDigit_toDigits _

theorem isTail_exponentText (e : Int) : IsTail ('e' :: exponentText e) := by
  obtain ⟨sign, es, h, hsign, hne, hes⟩ := exists_exponentText e
  rw [h]
  exact isTail_exponent hsign hes hne

/-- The part of a number after its point. -/
inductive IsFraction : List Char → Prop
  | absent : IsFraction []
  | digits {fs : List Char} (hne : fs ≠ []) (hfs : fs.all Char.isDigit = true) : IsFraction ('.' :: fs)

inductive IsExponent : List Char → Prop
  | absent : IsExponent []
  | ofInt (e : Int) : IsExponent ('e' :: exponentText e)

/-- The parts of a number that is no integer. -/
structure HasParts (cs whole fraction exponent : List Char) : Prop where
  eq : cs = whole ++ (fraction ++ exponent)
  isWhole : IsWhole whole
  isFraction : IsFraction fraction
  isExponent : IsExponent exponent
  floating : fraction ≠ [] ∨ exponent ≠ []

theorem hasParts_scientific {ds : List Char} (hds : ds.all Char.isDigit = true) (hne : ds ≠ [])
    (required : Bool) (e : Int) : ∃ whole fraction exponent, HasParts (scientific required ds e) whole fraction exponent := by
  have hone {d : Char} (hd : d.isDigit = true) : IsWhole [d] :=
    ⟨by rw [List.all_cons, hd]; rfl, List.cons_ne_nil _ _, fun h => by cases h; rfl⟩
  match ds, hne with
  | [d], _ =>
    rw [List.all_cons, Bool.and_eq_true] at hds
    rw [scientific]
    split
    · exact ⟨[d], '.' :: ['0'], _, rfl, hone hds.1, .digits (by decide) rfl, .ofInt e, .inl (by decide)⟩
    · exact ⟨[d], [], _, rfl, hone hds.1, .absent, .ofInt e, .inr nofun⟩
  | d :: f :: fs, _ =>
    rw [List.all_cons, Bool.and_eq_true] at hds
    exact ⟨[d], '.' :: (f :: fs), _, rfl, hone hds.1, .digits nofun hds.2, .ofInt e, .inl nofun⟩

theorem isWhole_zero : IsWhole ['0'] := ⟨rfl, List.cons_ne_nil _ _, fun _ => rfl⟩

theorem hasParts_point {whole fs : List Char} (hwhole : IsWhole whole) (hne : fs ≠ []) (hfs : fs.all Char.isDigit = true) :
    ∃ w fraction exponent, HasParts (whole ++ '.' :: fs) w fraction exponent :=
  ⟨whole, '.' :: fs, [], by rw [List.append_nil], hwhole, .digits hne hfs, .absent, .inl nofun⟩

theorem hasParts_positional {ds : List Char} (hds : IsWhole ds) {point : Int} (hzero : ds = ['0'] → point ≤ 1) :
    ∃ whole fraction exponent, HasParts (positional ds point) whole fraction exponent := by
  obtain ⟨hdigits, hne, hlead⟩ := hds
  have hpos : 0 < ds.length := List.length_pos_iff.2 hne
  rw [positional]
  split
  · refine hasParts_point isWhole_zero
      (List.append_ne_nil_of_right_ne_nil _ hne) ?_
    rw [List.all_append, all_isDigit_replicate, hdigits]
    rfl
  · rename_i hpoint
    split
    · refine hasParts_point ⟨?_, ?_, fun h => ?_⟩ (List.cons_ne_nil '0' []) rfl
      · rw [List.all_append, all_isDigit_replicate, hdigits]
        rfl
      · exact List.append_ne_nil_of_left_ne_nil hne _
      · rw [List.head?_append_of_ne_nil _ hne] at h
        have h0 := hlead h
        have := hzero h0
        rw [h0, show point.toNat = 1 by omega]
        rfl
    · rename_i hlen
      have htake : ds.take point.toNat ≠ [] := by
        intro h
        have := congrArg List.length h
        rw [List.length_take, List.length_nil] at this
        omega
      have hdrop := List.take_append_drop point.toNat ds
      refine hasParts_point ⟨?_, htake, fun h => ?_⟩ ?_ ?_
      · exact List.all_eq_true.2 fun c hc => List.all_eq_true.1 hdigits c (List.mem_of_mem_take hc)
      · rw [← hdrop, List.head?_append_of_ne_nil _ htake] at hlead
        have := congrArg List.length (hlead h)
        rw [hdrop, List.length_singleton] at this
        omega
      · rw [Ne, List.drop_eq_nil_iff]
        omega
      · exact List.all_eq_true.2 fun c hc => List.all_eq_true.1 hdigits c (List.mem_of_mem_drop hc)

/-- **A floating point number is spelled** with a point or an exponent, or with both. -/
theorem hasParts_magnitude (s : Spelling) (m : Nat) (e : Int) :
    ∃ whole fraction exponent, HasParts (magnitude s m e) whole fraction exponent := by
  rw [magnitude]
  split
  · exact hasParts_point isWhole_zero (List.cons_ne_nil '0' []) rfl
  · rename_i hm
    split
    · refine hasParts_positional (isWhole_toDigits _) fun h => ?_
      rcases shortest_digits hm e with hd | hd
      · exact absurd (by rw [h]; rfl) (head?_toDigits _ hd)
      · rw [h, hd]; decide
    · exact hasParts_scientific (all_isDigit_toDigits _) Nat.toDigits_ne_nil _ _

theorem IsExponent.isTail {r : List Char} (h : IsExponent r) : IsTail r ∧ r.head? ≠ some '.' := by
  cases h with
  | absent => exact ⟨isTail_nil, nofun⟩
  | ofInt e => exact ⟨isTail_exponentText e, nofun⟩

theorem HasParts.isNumeral {cs whole fraction exponent : List Char} (h : HasParts cs whole fraction exponent) :
    isNumeral cs = true := by
  obtain ⟨rfl, hwhole, hfraction, hexponent, -⟩ := h
  obtain ⟨htail, hpoint⟩ := hexponent.isTail
  refine isNumeral_of_parts hwhole ?_
  cases hfraction with
  | absent => exact htail
  | digits _ hfs => exact isTail_fraction hfs htail hpoint

theorem isNumeral_magnitude (s : Spelling) (m : Nat) (e : Int) : isNumeral (magnitude s m e) = true := by
  obtain ⟨_, _, _, h⟩ := hasParts_magnitude s m e
  exact h.isNumeral

/-- The characters that numbers are written in. -/
inductive IsNumberText : List Char → Prop
  | numeral {cs : List Char} (h : isNumeral cs = true) : IsNumberText cs
  | negative {cs : List Char} (h : isNegative (Text.ofChars cs) = true) : IsNumberText cs
  | word {cs : List Char} (h : cs = "Infinity".toList ∨ cs = "NaN".toList) : IsNumberText cs

theorem isNegative_of_numeral {cs : List Char} (h : isNumeral cs = true) :
    isNegative (Text.ofChars ('-' :: cs)) = true := by
  rw [isNegative, Text.toChars?_ofChars]
  simp [h]

theorem isNumeral_toDigits (n : Nat) : isNumeral (Nat.toDigits 10 n) = true := by
  have := isNumeral_of_parts (isWhole_toDigits n) isTail_nil
  rwa [List.append_nil] at this

/-- **Numbers are written** as numerals, perhaps after a minus, or as words. -/
theorem spellValue_number {v : Value} (hv : isNumber v = true) {t : Text} (h : spellValue v = .ok t) :
    ∃ cs, t = Text.ofChars cs ∧ IsNumberText cs := by
  cases v with
  | int i =>
    cases h
    cases i with
    | ofNat n => exact ⟨_, rfl, .numeral (isNumeral_toDigits n)⟩
    | negSucc n => exact ⟨'-' :: Nat.toDigits 10 (n + 1), rfl, .negative (isNegative_of_numeral (isNumeral_toDigits _))⟩
  | float x =>
    cases h
    cases x with
    | finite negative m e ok =>
      refine ⟨_, rfl, ?_⟩
      cases negative
      · exact .numeral (isNumeral_magnitude _ m e)
      · exact .negative (isNegative_of_numeral (isNumeral_magnitude _ m e))
    | infinite negative =>
      cases negative
      · exact ⟨"Infinity".toList, rfl, .word (.inl rfl)⟩
      · exact ⟨"-Infinity".toList, rfl, .negative (by decide)⟩
    | nan => exact ⟨"NaN".toList, rfl, .word (.inr rfl)⟩
  | _ => cases hv

end ApiRoutes.Script
