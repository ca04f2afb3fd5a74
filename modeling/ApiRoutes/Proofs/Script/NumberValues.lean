import ApiRoutes.Proofs.Binary64.Spelling
import ApiRoutes.Proofs.Script.Texts
/-!
# Values of spelled numbers

The number that the writer spells is the number that is read, of the same kind: digits are an integer
(`numberValue?_toDigits`), and the spelling of a floating point number has a point or an exponent, which no integer has
(`numberValue?_magnitude`).
-/
namespace ApiRoutes.Script

open Binary64

variable {m n : Nat} {e : Int} {c : Char} {cs ds : List Char}

/-! ## Integers -/

theorem hexDigit?_digit (h : c.isDigit = true) : Text.hexDigit? (.scalar c) = some (c.toNat - 48) ∧ c.toNat - 48 < 10 := by
  have hall : ("0123456789".toList.all fun c =>
      decide (Text.hexDigit? (.scalar c) = some (c.toNat - 48) ∧ c.toNat - 48 < 10)) = true := by decide
  exact of_decide_eq_true (List.all_eq_true.1 hall c (isDigit_mem h))

/-- The value of digits with one more of them. -/
def digitStep (base n : Nat) (c : Char) : Option Nat :=
  (Text.hexDigit? (.scalar c)).bind fun d => if d < base then some (base * n + d) else none

theorem digitsIn?_eq (base : Nat) (ds : List Char) :
    digitsIn? base ds = if ds.isEmpty then none else ds.foldlM (digitStep base) 0 := by
  have hstep {f : Nat → Char → Option Nat} (h : ∀ n c, f n c = digitStep base n c) :
      ds.foldlM f 0 = ds.foldlM (digitStep base) 0 := by
    rw [show f = digitStep base from funext fun n => funext (h n)]
  unfold digitsIn?
  rw [hstep]
  intro n c
  rw [digitStep]
  cases Text.hexDigit? (.scalar c) <;> rfl

theorem digitStep_digit (h : c.isDigit = true) (n : Nat) : digitStep 10 n c = some (10 * n + (c.toNat - 48)) := by
  obtain ⟨hc, hlt⟩ := hexDigit?_digit h
  rw [digitStep, hc, Option.bind_some, if_pos hlt]

theorem digitsIn?_digits (hne : ds ≠ []) (hds : ds.all Char.isDigit = true) : digitsIn? 10 ds = some (digitsValue ds) := by
  have hfrom : ∀ (es : List Char) (n : Nat), es.all Char.isDigit = true →
      es.foldlM (digitStep 10) n = some (es.foldl (fun n d => 10 * n + (d.toNat - 48)) n) := by
    intro es
    induction es with
    | nil => intro n _; rfl
    | cons c es ih =>
      intro n hes
      rw [List.all_cons, Bool.and_eq_true] at hes
      rw [List.foldlM_cons, digitStep_digit hes.1]
      exact ih _ hes.2
  rw [digitsIn?_eq, if_neg (by simpa using hne)]
  exact hfrom ds 0 hds

/-- What has a point or an exponent is no integer. -/
theorem digitsIn?_none (hc : c = '.' ∨ c = 'e') (hmem : c ∈ cs) : digitsIn? 10 cs = none := by
  have hstop : ∀ n, digitStep 10 n c = none := by
    intro n
    rcases hc with rfl | rfl <;> rfl
  have hfrom : ∀ (es : List Char) (n : Nat), c ∈ es → es.foldlM (digitStep 10) n = none := by
    intro es
    induction es with
    | nil => intro n h; cases h
    | cons d es ih =>
      intro n h
      rw [List.foldlM_cons]
      rcases List.mem_cons.1 h with rfl | h
      · rw [hstop]
        rfl
      · rw [Option.bind_eq_bind, Option.bind_eq_none_iff]
        intro k _
        exact ih k h
  rw [digitsIn?_eq]
  split
  · rfl
  · exact hfrom cs 0 hmem

theorem integer?_of_ne (h : c ≠ '0') (r : List Char) :
    integer? (c :: r) = if maxIntegerDigits < (c :: r).length then none else digitsIn? 10 (c :: r) := by
  unfold integer?
  split <;> first | rfl | exact absurd (List.cons.inj ‹_›).1 h

/-- A zero before digits, a point or an exponent is no sign of a base. -/
theorem integer?_of_zero (h : c ∈ "0123456789.e".toList) (r : List Char) :
    integer? ('0' :: c :: r) = if (c :: r).all (· == '0') then some 0 else none := by
  have hall : ("0123456789.e".toList.all fun c => decide (c ∉ "xXoObB".toList)) = true := by decide
  have hbase : c ∉ "xXoObB".toList := of_decide_eq_true (List.all_eq_true.1 hall c h)
  unfold integer?
  split <;> rename_i heq <;> first
    | exact absurd rfl (heq (c :: r))
    | cases heq; first | rfl | exact absurd (by decide) hbase

theorem numberValue?_eq (h : '_' ∉ cs) : numberValue? cs = match integer? cs with
    | some n => some (.int n)
    | none => (readUnsigned? false cs).map .float := by
  have hfilter : cs.filter (· != '_') = cs := by
    rw [List.filter_eq_self]
    intro c hc
    rw [bne_iff_ne]
    rintro rfl
    exact h hc
  change (match integer? (cs.filter (· != '_')) with
    | some n => some (Value.int n)
    | none => (readUnsigned? false (cs.filter (· != '_'))).map Value.float) = _
  rw [hfilter]

theorem underscore_not_mem (h : ds.all Char.isDigit = true) : '_' ∉ ds := fun hmem =>
  absurd (List.all_eq_true.1 h '_' hmem) (by decide)

/-- **The digits of an integer are read as the integer.** -/
theorem numberValue?_toDigits (h : (Nat.toDigits 10 n).length ≤ maxIntegerDigits) :
    numberValue? (Nat.toDigits 10 n) = some (.int n) := by
  rw [numberValue?_eq (underscore_not_mem (all_isDigit_toDigits n))]
  by_cases hn : n = 0
  · subst hn
    rfl
  · have hdigits := digitsIn?_digits Nat.toDigits_ne_nil (all_isDigit_toDigits n)
    have hhead := head?_toDigits n hn
    rw [digitsValue_toDigits] at hdigits
    generalize Nat.toDigits 10 n = ds at h hdigits hhead ⊢
    cases ds with
    | nil => cases hdigits
    | cons c ds =>
      have hc : c ≠ '0' := fun hc => hhead (congrArg some hc)
      rw [integer?_of_ne hc, if_neg (Nat.not_lt.2 h), hdigits]

/-! ## Floating point numbers -/

/-- Digits up to a point or an exponent. -/
structure IsDecimal (cs ds : List Char) (c : Char) (r : List Char) : Prop where
  eq : cs = ds ++ c :: r
  lead : ds ≠ [] ∧ ds.all Char.isDigit = true
  stop : c = '.' ∨ c = 'e'
  rest : '_' ∉ r

theorem IsDecimal.integer? {r : List Char} (h : IsDecimal cs ds c r) : integer? cs = none := by
  obtain ⟨rfl, ⟨hne, hds⟩, hc, -⟩ := h
  obtain ⟨d, ds, rfl⟩ := List.exists_cons_of_ne_nil hne
  have hmem : c ∈ d :: ds ++ c :: r := by simp
  by_cases hd : d = '0'
  · subst hd
    obtain ⟨d, t, hdt, hd⟩ : ∃ d t, ds ++ c :: r = d :: t ∧ d ∈ "0123456789.e".toList := by
      cases ds with
      | nil => exact ⟨c, r, rfl, by rcases hc with rfl | rfl <;> decide⟩
      | cons d ds =>
        simp only [List.all_cons, Bool.and_eq_true] at hds
        exact ⟨d, ds ++ c :: r, rfl, List.mem_append_left ['.', 'e'] (isDigit_mem hds.2.1)⟩
    have hstop : (ds ++ c :: r).all (· == '0') = false := by
      rcases hc with rfl | rfl <;> simp
    rw [List.cons_append, hdt, integer?_of_zero hd, ← hdt, hstop]
    rfl
  · rw [List.cons_append, integer?_of_ne hd, ← List.cons_append, digitsIn?_none hc hmem]
    split <;> rfl

theorem IsDecimal.underscore {r : List Char} (h : IsDecimal cs ds c r) : '_' ∉ cs := by
  obtain ⟨rfl, ⟨-, hds⟩, hc, hr⟩ := h
  intro hmem
  rcases List.mem_append.1 hmem with hmem | hmem
  · exact underscore_not_mem hds hmem
  · rcases List.mem_cons.1 hmem with rfl | hmem
    · rcases hc with hc | hc <;> cases hc
    · exact hr hmem

theorem underscore_exponentText (e : Int) : '_' ∉ exponentText e := by
  have hdigits := underscore_not_mem (all_isDigit_toDigits e.natAbs)
  unfold exponentText
  simp only [List.mem_cons, not_or]
  constructor
  · split <;> decide
  · split
    · simp [hdigits]
    · exact hdigits

theorem isDecimal_magnitude (s : Spelling) (m : Nat) (e : Int) : ∃ es c r, IsDecimal (magnitude s m e) es c r := by
  obtain ⟨whole, _, _, hparts⟩ := hasParts_magnitude s m e
  obtain ⟨heq, ⟨hdigits, hne, -⟩, hfraction, hexponent, hfloating⟩ := hparts
  cases hfraction with
  | absent =>
    cases hexponent with
    | absent => simp at hfloating
    | ofInt e => exact ⟨whole, 'e', _, heq, ⟨hne, hdigits⟩, .inr rfl, underscore_exponentText e⟩
  | @digits fs _ hfs =>
    refine ⟨whole, '.', _, heq, ⟨hne, hdigits⟩, .inl rfl, ?_⟩
    change '_' ∉ fs ++ _
    rw [List.mem_append, not_or]
    refine ⟨underscore_not_mem hfs, ?_⟩
    cases hexponent with
    | absent => nofun
    | ofInt e =>
      rw [List.mem_cons, not_or]
      exact ⟨by decide, underscore_exponentText e⟩

/-- **The spelling of a floating point number is read as the number**, and not as an integer. -/
theorem numberValue?_magnitude (s : Spelling) (ok : IsMantissa m e) :
    numberValue? (magnitude s m e) = some (.float (.finite false m e ok)) := by
  obtain ⟨ds, c, r, h⟩ := isDecimal_magnitude s m e
  rw [numberValue?_eq h.underscore, h.integer?, readUnsigned?_magnitude s ok false]
  rfl

end ApiRoutes.Script
