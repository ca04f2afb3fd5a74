import ApiRoutes.Script.Lexeme
/-!
# Tokens among other characters

How far a word, a number or a string reaches does not depend on what follows it, as long as that does
not go on with the token (`wordAt_past`, `numberLength_past`, `stringLength?_past`).
-/
namespace ApiRoutes.Script

/-! ## Words -/

/-- The characters of a word on its own. -/
def isWord (cs : List Char) : Bool := !cs.isEmpty && cs.all isWordPart && !cs.head?.any Char.isDigit

/-- Does a word end before these characters? -/
def endsWord (r : List Char) : Bool := r.head?.all fun ch => !isWordPart ch && ch != '\\'

variable {cs r : List Char}

theorem isWord_iff : isWord cs = true ↔
    ∃ c r, cs = c :: r ∧ isWordPart c = true ∧ c.isDigit = false ∧ r.all isWordPart = true := by
  cases cs with
  | nil => simp [isWord]
  | cons c r => simp [isWord, and_comm, and_left_comm, and_assoc]

theorem wordEscapeLength?_eq_none {c : Char} (h : c ≠ '\\') : wordEscapeLength? (c :: r) = none := by
  unfold wordEscapeLength?
  split
  · rename_i heq; cases heq; exact absurd rfl h
  · rename_i heq; cases heq; exact absurd rfl h
  · rfl

theorem wordRun_past (hr : endsWord r = true) :
    ∀ {cs : List Char} {fuel : Nat}, cs.all isWordPart = true → cs.length ≤ fuel →
      wordRun fuel (cs ++ r) = cs.length
  | [], 0, _, _ => rfl
  | [], fuel + 1, _, _ => by
    cases r with
    | nil => rfl
    | cons ch r =>
      simp only [endsWord, List.head?_cons, Option.all_some, Bool.and_eq_true, Bool.not_eq_true',
        bne_iff_ne, ne_eq] at hr
      rw [List.nil_append, wordRun, hr.1, wordEscapeLength?_eq_none hr.2]
      rfl
  | c :: cs, fuel + 1, hcs, hf => by
    rw [List.all_cons, Bool.and_eq_true] at hcs
    rw [List.cons_append, wordRun, if_pos hcs.1,
      wordRun_past hr hcs.2 (Nat.le_of_succ_le_succ hf)]
    rfl

/-- **A word is the next one** where it stands before something that does not go on with it. -/
theorem wordAt_past (hcs : isWord cs = true) (hr : endsWord r = true) :
    wordAt (cs ++ r) = String.ofList cs := by
  obtain ⟨c, ds, rfl, hc, hd, hds⟩ := isWord_iff.1 hcs
  have hrun : wordRun (c :: ds ++ r).length (c :: ds ++ r) = (c :: ds).length :=
    wordRun_past hr (by rw [List.all_cons, hc, hds]; rfl) (by rw [List.length_append]; omega)
  rw [wordAt, wordLength, if_neg (by simp [hd]), hrun, List.take_left]

/-- No word starts with a character that is no part of one, nor with a digit. -/
theorem wordAt_eq_empty {c : Char} (hc : isWordPart c = false ∨ c.isDigit = true) (he : c ≠ '\\') :
    wordAt (c :: r) = "" := by
  have h : wordLength (c :: r) = 0 := by
    unfold wordLength
    split
    · rfl
    · rename_i hd
      have hw : isWordPart c = false := hc.resolve_right (by simpa using hd)
      rw [List.length_cons, wordRun, hw, wordEscapeLength?_eq_none he]
      rfl
  rw [wordAt, h]
  rfl

/-! ## Signs -/

/-- The characters that signs start with. -/
def signHeads : List Char := ">.=!*<&|?+-/%^\x7b\x7d()[];,~:@#".toList

theorem signAt_eq_empty {c : Char} (hc : c ∉ signHeads) : signAt (c :: r) = "" := by
  have hq : c ≠ '?' := fun h => hc (by rw [h]; decide)
  have hheads : ∀ s ∈ signs, ∃ h t, s.toList = h :: t ∧ h ∈ signHeads := by
    have : (signs.all fun s => s.toList.head?.any signHeads.contains) = true := by decide
    intro s hs
    have := List.all_eq_true.1 this s hs
    cases hl : s.toList with
    | nil => rw [hl] at this; cases this
    | cons h t => rw [hl] at this; exact ⟨h, t, rfl, by simpa using this⟩
  unfold signAt
  split
  · rename_i heq; cases heq; exact absurd rfl hq
  · rename_i heq
    rw [List.find?_eq_none.2]
    · rfl
    · intro s hs
      obtain ⟨h, t, ht, hh⟩ := hheads s hs
      rw [ht, List.isPrefixOf]
      have : (h == c) = false := beq_eq_false_iff_ne.2 fun e => hc (e ▸ hh)
      rw [this]
      exact Bool.false_ne_true

theorem not_mem_signHeads {c : Char} (hc : isWordPart c = true) : c ∉ signHeads := by
  intro h
  have hall : signHeads.all (fun c => !isWordPart c) = true := by decide
  have := List.all_eq_true.1 hall c h
  rw [hc] at this
  cases this

/-! ## Numbers -/

/-- The characters of a number on its own. -/
def isNumeral (cs : List Char) : Bool := cs.head?.any Char.isDigit && numberLength cs == cs.length

/-- The characters after which no number goes on. -/
def numberStops : List Char := [',', ';', ')', ']', ' ', '\x7d', '\n']

/-- Does a number end before these characters? -/
def endsNumber (r : List Char) : Bool := r.head?.all numberStops.contains

theorem endsNumber_head {p : Char → Bool} (hp : numberStops.any p = false) (hr : endsNumber r = true) :
    r.head?.any p = false := by
  cases r with
  | nil => rfl
  | cons c r =>
    have := List.any_eq_false.1 hp c (by simpa [endsNumber] using hr)
    simpa using this

theorem digitRun_eq_zero {p : Char → Bool} (h : cs.head?.any p = false) : digitRun p cs = 0 := by
  match cs, h with
  | [], _ => rfl
  | [c], h => exact if_neg (by simpa using h)
  | c :: d :: r, h => exact if_neg (by simpa using h)

theorem digitRun_past {p : Char → Bool} (hp : numberStops.any p = false) (hr : endsNumber r = true) :
    ∀ cs : List Char, digitRun p (cs ++ r) = digitRun p cs
  | [] => digitRun_eq_zero (endsNumber_head hp hr)
  | [c] => by
    have ih := digitRun_past hp hr []
    have hu := endsNumber_head (p := (· == '_')) (by decide) hr
    cases r with
    | nil => rfl
    | cons d r =>
      rw [List.nil_append] at ih
      have hd : (d == '_') = false := hu
      rw [List.singleton_append, digitRun, digitRun, hd, ih]
      rfl
  | c :: d :: cs => by
    have ih := digitRun_past hp hr cs
    have ih' := digitRun_past hp hr (d :: cs)
    have hh : (cs ++ r).head?.any p = cs.head?.any p := by
      cases cs with
      | nil => exact endsNumber_head hp hr
      | cons => rfl
    rw [List.cons_append] at ih'
    rw [List.cons_append, List.cons_append, digitRun, digitRun, hh, ih, ih']

theorem digitRun_le (p : Char → Bool) (cs : List Char) : digitRun p cs ≤ cs.length := by
  fun_induction digitRun p cs <;> simp_all

theorem drop_past {n : Nat} (h : n ≤ cs.length) : (cs ++ r).drop n = cs.drop n ++ r :=
  List.drop_append_of_le_length h

theorem exponentLength_past (hr : endsNumber r = true) (cs : List Char) :
    exponentLength (cs ++ r) = exponentLength cs := by
  cases cs with
  | nil =>
    have h := endsNumber_head (p := fun c => c == 'e' || c == 'E') (by decide) hr
    cases r with
    | nil => rfl
    | cons c r =>
      have hc : (c == 'e' || c == 'E') = false := h
      rw [List.nil_append, exponentLength, hc]
      rfl
  | cons c cs =>
    have hsign : ((cs ++ r).head? == some '+' || (cs ++ r).head? == some '-') =
        (cs.head? == some '+' || cs.head? == some '-') := by
      cases cs with
      | nil =>
        have h := endsNumber_head (p := fun c => c == '+' || c == '-') (by decide) hr
        cases r with
        | nil => rfl
        | cons c r => simpa using h
      | cons => rfl
    rw [List.cons_append, exponentLength, exponentLength, hsign]
    have hdrop : (cs ++ r).drop (if (cs.head? == some '+' || cs.head? == some '-') = true then 1 else 0) =
        cs.drop (if (cs.head? == some '+' || cs.head? == some '-') = true then 1 else 0) ++ r := by
      apply drop_past
      cases cs with
      | nil => simp
      | cons => split <;> simp
    simp only [hdrop, digitRun_past (p := Char.isDigit) (by decide) hr]

theorem fractionLength_past (hr : endsNumber r = true) (required : Bool) (cs : List Char) :
    fractionLength required (cs ++ r) = fractionLength required cs := by
  have hpoint (cs : List Char) : fractionLength required ('.' :: cs) =
      if required && digitRun Char.isDigit cs == 0 then 0
      else 1 + digitRun Char.isDigit cs + exponentLength (cs.drop (digitRun Char.isDigit cs)) := rfl
  have hother {c : Char} (hc : c ≠ '.') (cs : List Char) : fractionLength required (c :: cs) = 0 := by
    unfold fractionLength
    split
    · rename_i heq; cases heq; exact absurd rfl hc
    · rfl
  cases cs with
  | nil =>
    cases r with
    | nil => rfl
    | cons c r => exact hother (by rintro rfl; cases hr) r
  | cons c cs =>
    by_cases hc : c = '.'
    · subst hc
      rw [List.cons_append, hpoint, hpoint, digitRun_past (p := Char.isDigit) (by decide) hr,
        drop_past (digitRun_le _ _), exponentLength_past hr]
    · rw [List.cons_append, hother hc, hother hc]

theorem basedLength_of_ne {c : Char} (hc : c ≠ '0') (cs : List Char) : basedLength (c :: cs) = 0 := by
  unfold basedLength
  split
  · rename_i heq; cases heq; exact absurd rfl hc
  · rfl

theorem basedLength_past (hr : endsNumber r = true) (cs : List Char) :
    basedLength (cs ++ r) = basedLength cs := by
  have hzero (b : Char) (cs : List Char) : basedLength ('0' :: b :: cs) =
      let n :=
        if b == 'x' || b == 'X' then digitRun isHex cs
        else if b == 'b' || b == 'B' then digitRun (fun c => c == '0' || c == '1') cs
        else if b == 'o' || b == 'O' then digitRun (fun c => '0' ≤ c && c ≤ '7') cs
        else 0
      if n = 0 then 0 else n + 2 := rfl
  match cs with
  | [] =>
    cases r with
    | nil => rfl
    | cons c r => exact basedLength_of_ne (by rintro rfl; cases hr) r
  | [c] =>
    by_cases hc : c = '0'
    · subst hc
      cases r with
      | nil => rfl
      | cons d r =>
        have h {p : Char → Bool} (hp : numberStops.any p = false) : p d = false :=
          endsNumber_head hp hr
        rw [List.singleton_append, hzero, h (p := fun b => b == 'x' || b == 'X') (by decide),
          h (p := fun b => b == 'b' || b == 'B') (by decide),
          h (p := fun b => b == 'o' || b == 'O') (by decide)]
        rfl
    · rw [List.singleton_append, basedLength_of_ne hc, basedLength_of_ne hc]
  | c :: b :: cs =>
    by_cases hc : c = '0'
    · subst hc
      rw [List.cons_append, List.cons_append, hzero, hzero, digitRun_past (p := isHex) (by decide) hr,
        digitRun_past (p := fun c => c == '0' || c == '1') (by decide) hr,
        digitRun_past (p := fun c => '0' ≤ c && c ≤ '7') (by decide) hr]
    · rw [List.cons_append, basedLength_of_ne hc, basedLength_of_ne hc]

theorem basedLength_le (cs : List Char) : basedLength cs ≤ cs.length := by
  have hbound {n m : Nat} (h : n ≤ m) : (if n = 0 then 0 else n + 2) ≤ m + 2 := by
    split <;> omega
  unfold basedLength
  split
  · refine hbound ?_
    repeat' split
    all_goals first | exact digitRun_le _ _ | exact Nat.zero_le _
  · exact Nat.zero_le _

theorem head?_past {p : Char → Bool} (hp : numberStops.any p = false) (hr : endsNumber r = true)
    (cs : List Char) : (cs ++ r).head?.any p = cs.head?.any p := by
  cases cs with
  | nil => exact endsNumber_head hp hr
  | cons => rfl

/-- The digits that a point or an exponent may follow: after a zero no more digits of an octal number. -/
def wholeLength (digits : Nat) : List Char → Nat
  | '0' :: c :: _ => if '1' ≤ c ∧ c ≤ '9' then digits else 1
  | _ => digits

theorem numberLength_eq (cs : List Char) : numberLength cs =
    let digits := digitRun Char.isDigit cs
    let rest := cs.drop (wholeLength digits cs)
    let tail := if rest.head? = some '.' then fractionLength false rest else exponentLength rest
    let plain := if (cs.drop digits).head? = some 'n' then digits + 1 else digits
    if basedLength cs ≠ 0 then
      if (cs.drop (basedLength cs)).head? = some 'n' then basedLength cs + 1 else basedLength cs
    else if digits = 0 then fractionLength true cs
    else if tail = 0 then plain else max plain (wholeLength digits cs + tail) := rfl

theorem wholeLength_one (cs : List Char) : wholeLength 1 cs = 1 := by
  unfold wholeLength
  split
  · split <;> rfl
  · rfl

theorem wholeLength_of_ne {c : Char} (hc : c ≠ '0') (digits : Nat) (cs : List Char) :
    wholeLength digits (c :: cs) = digits := by
  unfold wholeLength
  split
  · rename_i heq; cases heq; exact absurd rfl hc
  · rfl

theorem wholeLength_past {cs : List Char} (h : digitRun Char.isDigit cs ≠ 0) :
    wholeLength (digitRun Char.isDigit cs) (cs ++ r) = wholeLength (digitRun Char.isDigit cs) cs := by
  match cs with
  | [] => exact absurd rfl h
  | [c] =>
    have hle := digitRun_le Char.isDigit [c]
    rw [List.length_singleton] at hle
    rw [show digitRun Char.isDigit [c] = 1 by omega, wholeLength_one, wholeLength_one]
  | c :: d :: cs =>
    by_cases hc : c = '0'
    · subst hc; rfl
    · rw [List.cons_append, wholeLength_of_ne hc, wholeLength_of_ne hc]

theorem wholeLength_le (cs : List Char) :
    wholeLength (digitRun Char.isDigit cs) cs ≤ cs.length := by
  have := digitRun_le Char.isDigit cs
  unfold wholeLength
  split
  · split
    · exact this
    · rw [List.length_cons]; omega
  · exact this

/-- **A number is as long as on its own** before something that does not go on with it. -/
theorem numberLength_past (hr : endsNumber r = true) (cs : List Char) :
    numberLength (cs ++ r) = numberLength cs := by
  have hhead (ch : Char) (h : numberStops.any (· == ch) = false) {n : Nat} (hn : n ≤ cs.length) :
      ((cs ++ r).drop n).head? = some ch ↔ (cs.drop n).head? = some ch := by
    rw [drop_past hn]
    have := head?_past (p := (· == ch)) h hr (cs.drop n)
    cases hx : (cs.drop n ++ r).head? <;> cases hy : (cs.drop n).head? <;> simp_all
  have hd := digitRun_past (p := Char.isDigit) (by decide) hr cs
  rw [numberLength_eq, numberLength_eq]
  simp only [basedLength_past hr, hd, hhead 'n' (by decide) (basedLength_le cs),
    hhead 'n' (by decide) (digitRun_le Char.isDigit cs), fractionLength_past hr]
  by_cases h : digitRun Char.isDigit cs = 0
  · simp only [h, if_true]
  · have hrest := drop_past (r := r) (wholeLength_le cs)
    have hpoint := hhead '.' (by decide) (wholeLength_le cs)
    rw [hrest] at hpoint
    simp only [h, if_false, wholeLength_past h, hrest, hpoint, fractionLength_past hr,
      exponentLength_past hr]

theorem exponentLength_le (cs : List Char) : exponentLength cs ≤ cs.length := by
  cases cs with
  | nil => exact Nat.le_refl 0
  | cons c rest =>
    have h (sign : Nat) : (if digitRun Char.isDigit (rest.drop sign) = 0 then 0
        else 1 + sign + digitRun Char.isDigit (rest.drop sign)) ≤ rest.length + 1 := by
      have := digitRun_le Char.isDigit (rest.drop sign)
      rw [List.length_drop] at this
      split <;> omega
    rw [exponentLength]
    split
    · exact h _
    · exact Nat.zero_le _

theorem fractionLength_le (required : Bool) (cs : List Char) : fractionLength required cs ≤ cs.length := by
  unfold fractionLength
  split
  · rename_i rest
    have hd := digitRun_le Char.isDigit rest
    have he := exponentLength_le (rest.drop (digitRun Char.isDigit rest))
    rw [List.length_drop] at he
    rw [List.length_cons]
    dsimp only
    split <;> omega
  · exact Nat.zero_le _

theorem numberLength_le (cs : List Char) : numberLength cs ≤ cs.length := by
  have hmark {k : Nat} (hk : k ≤ cs.length) :
      (if (cs.drop k).head? = some 'n' then k + 1 else k) ≤ cs.length := by
    split
    · rename_i h
      rw [List.head?_drop] at h
      exact (List.getElem?_eq_some_iff.1 h).1
    · exact hk
  have hwhole := wholeLength_le cs
  have htail (digits : Bool) := fractionLength_le digits (cs.drop (wholeLength (digitRun Char.isDigit cs) cs))
  have hexponent := exponentLength_le (cs.drop (wholeLength (digitRun Char.isDigit cs) cs))
  have hplain := hmark (digitRun_le Char.isDigit cs)
  simp only [List.length_drop] at htail hexponent
  rw [numberLength_eq]
  dsimp only
  split
  · exact hmark (basedLength_le cs)
  · split
    · exact fractionLength_le true cs
    · have hlonger {plain tail : Nat} (hp : plain ≤ cs.length)
          (ht : tail ≤ cs.length - wholeLength (digitRun Char.isDigit cs) cs) :
          (if tail = 0 then plain else max plain (wholeLength (digitRun Char.isDigit cs) cs + tail)) ≤ cs.length := by
        split
        · exact hp
        · exact Nat.max_le.2 ⟨hp, by omega⟩
      split
      · exact hlonger hplain (htail false)
      · exact hlonger hplain hexponent

/-- A number stands on one line. -/
theorem isNumeral_oneLine (h : isNumeral cs = true) : '\n' ∉ cs := by
  intro hmem
  obtain ⟨a, b, rfl⟩ := List.append_of_mem hmem
  rw [isNumeral, Bool.and_eq_true, beq_iff_eq, numberLength_past rfl, List.length_append, List.length_cons] at h
  have := numberLength_le a
  omega
/-! ## Strings -/

theorem takeWhile_past {p : Char → Bool} (h : (cs.takeWhile p).length < cs.length) :
    (cs ++ r).takeWhile p = cs.takeWhile p := by
  induction cs with
  | nil => cases h
  | cons c cs ih =>
    rw [List.cons_append, List.takeWhile_cons, List.takeWhile_cons] at *
    split
    · rename_i hc
      rw [if_pos hc] at h
      rw [ih (by simpa using h)]
    · rfl

theorem head?_drop_past {n : Nat} {ch : Char} (h : (cs.drop n).head? = some ch) :
    n < cs.length ∧ ((cs ++ r).drop n).head? = some ch := by
  have hn : n < cs.length := by
    refine Nat.lt_of_not_le fun hle => ?_
    rw [List.drop_eq_nil_of_le hle] at h
    cases h
  refine ⟨hn, ?_⟩
  rw [drop_past (Nat.le_of_lt hn), List.head?_append, h]
  rfl

theorem wordEscapeLength?_past {n : Nat} (h : wordEscapeLength? cs = some n) :
    wordEscapeLength? (cs ++ r) = some n := by
  unfold wordEscapeLength? at h
  split at h
  · rename_i rest
    dsimp only at h
    split at h
    · rename_i hc
      obtain ⟨hlt, hd⟩ := head?_drop_past (r := r) hc.2
      rw [← h, List.cons_append, List.cons_append, List.cons_append, wordEscapeLength?, takeWhile_past hlt]
      exact if_pos ⟨hc.1, hd⟩
    · cases h
  · rename_i ha
    rw [← h]
    unfold wordEscapeLength?
    split
    · rename_i heq
      cases heq
      exact absurd rfl ha
    · rename_i heq
      cases heq
      rfl
    · rename_i hne
      exact absurd rfl (hne _ _ _ _ _)
  · cases h

theorem escapeLength?_past {n : Nat} (h : escapeLength? cs = some n) (hn : n < cs.length) :
    escapeLength? (cs ++ r) = some n := by
  unfold escapeLength? at h
  split at h
  · cases h
  · rename_i rest
    split at h
    · rename_i hc
      have htwo : (rest ++ r).take 2 = rest.take 2 := by
        rw [List.take_append_of_le_length]
        have := hc.1
        rw [List.length_take] at this
        omega
      rw [← h, List.cons_append, escapeLength?, htwo, if_pos hc]
    · cases h
  · rename_i rest
    obtain ⟨m, hm, rfl⟩ := Option.map_eq_some_iff.1 h
    have := wordEscapeLength?_past (r := r) hm
    rw [List.cons_append, escapeLength?]
    rw [List.cons_append, List.cons_append] at this
    rw [this]
    rfl
  · rename_i c rest hx hu
    have hother (rest : List Char) : escapeLength? (c :: rest) =
        if '0' ≤ c ∧ c ≤ '7' then
          some (((c :: rest).take 3).takeWhile fun d => '0' ≤ d && d ≤ '7').length
        else if (c = '\r' ∨ c = '?') ∧ rest.head?.any isBreak then some 2
        else some 1 := by
      rw [escapeLength?]
      · exact hx
      · exact hu
    rw [List.cons_append, hother, ← h]
    split
    · rename_i hc
      rw [if_pos hc] at h
      rw [← List.cons_append, List.take_append]
      by_cases h3 : 3 ≤ (c :: rest).length
      · rw [Nat.sub_eq_zero_of_le h3, List.take_zero, List.append_nil]
      · have htake : (c :: rest).take 3 = c :: rest := List.take_of_length_le (by omega)
        rw [htake] at h ⊢
        rw [takeWhile_past (by rw [Option.some.inj h]; exact hn)]
    · rename_i hc
      rw [if_neg hc] at h
      cases rest with
      | cons => rfl
      | nil =>
        rw [if_neg (by simp)] at h
        cases h
        exact absurd hn (Nat.lt_irrefl 1)

theorem stringRun_past {quote : Char} : ∀ {fuel fuel' n : Nat} {cs : List Char},
    stringRun quote fuel cs = some n → cs.length ≤ fuel' → stringRun quote fuel' (cs ++ r) = some n
  | 0, _, _, _, h, _ => by cases h
  | _ + 1, _, _, [], h, _ => by cases h
  | _ + 1, 0, _, _ :: _, _, hf => absurd hf (Nat.not_succ_le_zero _)
  | fuel + 1, fuel' + 1, n, c :: rest, h, hf => by
    rw [List.length_cons] at hf
    rw [stringRun] at h
    rw [List.cons_append, stringRun]
    split
    · rename_i hq
      rw [if_pos hq] at h
      exact h
    · rename_i hq
      rw [if_neg hq] at h
      split
      · rename_i hb
        rw [if_pos hb] at h
        cases h
      · rename_i hb
        rw [if_neg hb] at h
        split
        · rename_i he
          rw [if_pos he] at h
          cases hlen : escapeLength? rest with
          | none => rw [hlen] at h; cases h
          | some m =>
            rw [hlen] at h
            obtain ⟨k, hk, rfl⟩ := Option.map_eq_some_iff.1 h
            have hm : m < rest.length := by
              refine Nat.lt_of_not_le fun hle => ?_
              rw [List.drop_eq_nil_of_le hle] at hk
              cases fuel <;> cases hk
            rw [escapeLength?_past hlen hm]
            simp only
            rw [drop_past (Nat.le_of_lt hm), stringRun_past hk (by rw [List.length_drop]; omega)]
            rfl
        · rename_i he
          rw [if_neg he] at h
          obtain ⟨k, hk, rfl⟩ := Option.map_eq_some_iff.1 h
          rw [stringRun_past hk (by omega)]
          rfl

/-- **A string is as long as on its own** before anything. -/
theorem stringLength?_past {n : Nat} (h : stringLength? cs = some n) :
    stringLength? (cs ++ r) = some n := by
  cases cs with
  | nil => cases h
  | cons c rest =>
    rw [stringLength?] at h
    rw [List.cons_append, stringLength?]
    split
    · rename_i hc
      rw [if_pos hc] at h
      obtain ⟨k, hk, rfl⟩ := Option.map_eq_some_iff.1 h
      rw [stringRun_past hk (by rw [List.length_append]; omega)]
      rfl
    · rename_i hc
      rw [if_neg hc] at h
      cases h

end ApiRoutes.Script
