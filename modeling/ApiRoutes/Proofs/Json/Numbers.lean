import ApiRoutes.Json.Reader
import ApiRoutes.Json.Writer
import ApiRoutes.Proofs.Binary64.Spelling
/-!
# Numbers are read back

An integer of no more digits than are read is read back (`readScalar_ofInt`), and every floating point number is, with
the words for what is not finite (`readScalar_float`).
-/
namespace ApiRoutes.Json

open Script Binary64

/-- What stands after a value: a comma, or the end of the line. -/
def Follows (rest : Text) : Prop := ∃ c r, rest = .scalar c :: r ∧ (c = ',' ∨ c = '\n')

variable {rest t : Text} {ds whole fraction exponent : List Char} {negative : Bool}

/-! ## Parts -/

/-- The text goes on with a character that the predicate does not hold of. -/
def StopsAt (p : Char → Bool) (t : Text) : Prop := ∃ c r, t = .scalar c :: r ∧ p c = false

theorem leadingDigits_append (hds : ds.all Char.isDigit = true) (ht : StopsAt Char.isDigit t) :
    leadingDigits (Text.ofChars ds ++ t) = (ds, t) := by
  induction ds with
  | nil =>
    obtain ⟨c, r, rfl, hc⟩ := ht
    simp [Text.ofChars, leadingDigits, hc]
  | cons d ds ih =>
    rw [List.all_cons, Bool.and_eq_true] at hds
    have ih := ih hds.2
    simp only [Text.ofChars] at ih
    simp [Text.ofChars, leadingDigits, hds.1, ih]

theorem Follows.stopsAt {p : Char → Bool} (h : Follows rest) (hcomma : p ',' = false) (hfeed : p '\n' = false) :
    StopsAt p rest := by
  obtain ⟨c, r, rfl, hc⟩ := h
  rcases hc with rfl | rfl
  · exact ⟨_, r, rfl, hcomma⟩
  · exact ⟨_, r, rfl, hfeed⟩

theorem readExponent_append (he : IsExponent exponent) (h : Follows rest) :
    readExponent (Text.ofChars exponent ++ rest) = (exponent, rest) := by
  cases he with
  | absent =>
    obtain ⟨c, r, rfl, rfl | rfl⟩ := h <;> rfl
  | ofInt e =>
    obtain ⟨sign, es, htext, hsign, hne, hes⟩ := exists_exponentText e
    have hread := leadingDigits_append hes (h.stopsAt (by decide) (by decide))
    obtain ⟨d, es, rfl⟩ := List.exists_cons_of_ne_nil hne
    have hsplit : Text.ofChars ('e' :: sign :: d :: es) ++ rest =
        .scalar 'e' :: .scalar sign :: (Text.ofChars (d :: es) ++ rest) := rfl
    rw [htext, hsplit]
    rcases hsign with rfl | rfl <;> simp [readExponent, hread]

theorem readDecimals_append (hf : IsFraction fraction) (ht : StopsAt (fun c => c.isDigit || c == '.') t) :
    readDecimals (Text.ofChars fraction ++ t) = (fraction, t) := by
  obtain ⟨c, r, rfl, hc⟩ := ht
  rw [Bool.or_eq_false_iff, beq_eq_false_iff_ne] at hc
  cases hf with
  | absent =>
    change readDecimals (.scalar c :: r) = _
    rw [readDecimals]
    rintro r' heq
    exact hc.2 (CodePoint.scalar.inj (List.cons.inj heq).1)
  | @digits fs hne hfs =>
    have hread := leadingDigits_append hfs ⟨c, r, rfl, hc.1⟩
    obtain ⟨d, fs, rfl⟩ := List.exists_cons_of_ne_nil hne
    have hsplit : Text.ofChars ('.' :: d :: fs) ++ .scalar c :: r =
        .scalar '.' :: (Text.ofChars (d :: fs) ++ .scalar c :: r) :=
      rfl
    rw [hsplit]
    simp [readDecimals, hread]

/-- The whole digits of a number. -/
theorem readNumber_whole (hw : IsWhole whole) (ht : StopsAt Char.isDigit t) (start : Text) :
    readNumber negative start (Text.ofChars whole ++ t) =
      match numberOf negative whole (readDecimals t).1 (readExponent (readDecimals t).2).1 with
      | .ok v => .ok (v, (readExponent (readDecimals t).2).2)
      | .error cause => stop cause start := by
  obtain ⟨hdigits, hne, hzero⟩ := hw
  have hread := leadingDigits_append hdigits ht
  obtain ⟨d, whole, rfl⟩ := List.exists_cons_of_ne_nil hne
  by_cases hd : d = '0'
  · subst hd
    obtain rfl : whole = [] := (List.cons.inj (hzero rfl)).2
    rfl
  · have hsplit : Text.ofChars (d :: whole) ++ t = .scalar d :: (Text.ofChars whole ++ t) := rfl
    rw [hsplit] at hread ⊢
    unfold readNumber
    split
    rename_i heq
    split at heq
    · rename_i h
      exact absurd (CodePoint.scalar.inj (List.cons.inj h).1) hd
    · rw [hread] at heq
      cases heq
      rfl

theorem readNumber_parts {cs : List Char} {v : Value} (hcs : cs = whole ++ (fraction ++ exponent)) (hw : IsWhole whole)
    (hf : IsFraction fraction) (he : IsExponent exponent) (hrest : Follows rest)
    (hv : numberOf negative whole fraction exponent = .ok v) (start : Text) :
    readNumber negative start (Text.ofChars cs ++ rest) = .ok (v, rest) := by
  have hexponent : StopsAt (fun c => c.isDigit || c == '.') (Text.ofChars exponent ++ rest) := by
    cases he with
    | absent => exact hrest.stopsAt (by decide) (by decide)
    | ofInt e => exact ⟨'e', _, rfl, by decide⟩
  have hfraction : StopsAt Char.isDigit (Text.ofChars fraction ++ (Text.ofChars exponent ++ rest)) := by
    cases hf with
    | absent =>
      obtain ⟨c, r, heq, hc⟩ := hexponent
      exact ⟨c, r, heq, (Bool.or_eq_false_iff.1 hc).1⟩
    | digits => exact ⟨'.', _, rfl, by decide⟩
  rw [hcs, Text.ofChars_append, Text.ofChars_append, List.append_assoc, List.append_assoc, readNumber_whole hw hfraction,
    readDecimals_append hf hexponent, readExponent_append he hrest, hv]

/-! ## Words -/

/-- No word starts as the text does. -/
theorem no_word {c : Char} {r : Text} (hc : c ∉ ['n', 't', 'f', 'N', 'I', '-']) :
    (words.findSome? fun (w, v) => (Text.dropLead? w (.scalar c :: r)).map fun rest => (v, rest)) = none := by
  simp only [List.mem_cons, List.not_mem_nil, or_false, not_or] at hc
  simp [words, Text.dropLead?, Text.ofString, hc, eq_comm]

theorem no_word_minus {c : Char} {r : Text} (hc : c ≠ 'I') :
    (words.findSome? fun (w, v) => (Text.dropLead? w (.scalar '-' :: .scalar c :: r)).map fun rest => (v, rest)) = none := by
  simp [words, Text.dropLead?, Text.ofString, hc.symm]

theorem ne_of_isDigit {c d : Char} (hc : c.isDigit = true) (hd : d.isDigit = false) : c ≠ d := by
  rintro rfl
  rw [hc] at hd
  cases hd

theorem readScalar_digit {c : Char} {r : Text} (hc : c.isDigit = true) :
    readScalar (.scalar c :: r) = readNumber false (.scalar c :: r) (.scalar c :: r) := by
  have hnone : c ∉ ['n', 't', 'f', 'N', 'I', '-'] := by
    simp [ne_of_isDigit hc]
  have hhead {d : Char} {r' : Text} (hd : d.isDigit = false) : .scalar c :: r ≠ .scalar d :: r' := fun heq =>
    ne_of_isDigit hc hd (CodePoint.scalar.inj (List.cons.inj heq).1)
  rw [readScalar, no_word hnone]
  · exact fun _ => hhead rfl
  · exact fun _ => hhead rfl

theorem readScalar_minus {c : Char} {r : Text} (hc : c.isDigit = true) :
    readScalar (.scalar '-' :: .scalar c :: r) = readNumber true (.scalar '-' :: .scalar c :: r) (.scalar c :: r) := by
  rw [readScalar, no_word_minus (ne_of_isDigit hc rfl)]

/-- A number is read after its sign, if it has one. -/
theorem readScalar_signed (negative : Bool) {cs : List Char} {v : Value} (hne : cs ≠ [])
    (hhead : cs.head?.all Char.isDigit = true)
    (h : ∀ start, readNumber negative start (Text.ofChars cs ++ rest) = .ok (v, rest)) :
    readScalar (Text.ofChars (if negative then '-' :: cs else cs) ++ rest) = .ok (v, rest) := by
  obtain ⟨c, cs, rfl⟩ := List.exists_cons_of_ne_nil hne
  have hc : c.isDigit = true := hhead
  cases negative with
  | false => exact (readScalar_digit hc).trans (h _)
  | true => exact (readScalar_minus hc).trans (h _)

/-! ## Integers -/

theorem readNumber_toDigits {n : Nat} (hn : (Nat.toDigits 10 n).length ≤ maxIntegerDigits) (hrest : Follows rest)
    (start : Text) : readNumber negative start (Text.ofChars (Nat.toDigits 10 n) ++ rest) =
      .ok (.int (if negative then -n else n), rest) := by
  refine readNumber_parts (List.append_nil _).symm (isWhole_toDigits n) .absent .absent hrest ?_ start
  have hnone : (([] : List Char).isEmpty && ([] : List Char).isEmpty) = true := rfl
  rw [numberOf, if_pos hnone, if_neg (Nat.not_lt.2 hn), digitsValue_toDigits]

theorem head?_all_isDigit {ds : List Char} (h : ds.all Char.isDigit = true) : ds.head?.all Char.isDigit = true := by
  cases ds with
  | nil => rfl
  | cons d ds =>
    rw [List.all_cons, Bool.and_eq_true] at h
    exact h.1

/-- **An integer is read back**, unless it has more digits than are read. -/
theorem readScalar_ofInt {i : Int} (hi : (Nat.toDigits 10 i.natAbs).length ≤ maxIntegerDigits) (hrest : Follows rest) :
    readScalar (Text.ofInt i ++ rest) = .ok (.int i, rest) := by
  have hdigits {n : Nat} := head?_all_isDigit (all_isDigit_toDigits n)
  cases i with
  | ofNat n =>
    exact readScalar_signed false Nat.toDigits_ne_nil hdigits fun start => readNumber_toDigits hi hrest start
  | negSucc n =>
    exact readScalar_signed true Nat.toDigits_ne_nil hdigits fun start => readNumber_toDigits hi hrest start

/-! ## Floating point numbers -/

theorem readNumber_magnitude {m : Nat} {e : Int} (s : Spelling) (ok : IsMantissa m e) (hrest : Follows rest)
    (start : Text) : readNumber negative start (Text.ofChars (magnitude s m e) ++ rest) =
      .ok (.float (.finite negative m e ok), rest) := by
  obtain ⟨whole, fraction, exponent, heq, hw, hf, he, hfloating⟩ := hasParts_magnitude s m e
  refine readNumber_parts heq hw hf he hrest ?_ start
  have hnone : (fraction.isEmpty && exponent.isEmpty) = false := by
    rw [Bool.and_eq_false_iff, List.isEmpty_eq_false_iff, List.isEmpty_eq_false_iff]
    exact hfloating
  rw [numberOf, hnone, if_neg Bool.false_ne_true, List.append_assoc, ← heq, readUnsigned?_magnitude s ok]

theorem magnitude_starts (s : Spelling) (m : Nat) (e : Int) :
    magnitude s m e ≠ [] ∧ (magnitude s m e).head?.all Char.isDigit = true := by
  obtain ⟨whole, fraction, exponent, heq, ⟨hdigits, hne, -⟩, -⟩ := hasParts_magnitude s m e
  rw [heq, List.head?_append_of_ne_nil _ hne]
  exact ⟨List.append_ne_nil_of_left_ne_nil hne _, head?_all_isDigit hdigits⟩

/-- **A floating point number is read back.** -/
theorem readScalar_float (x : Binary64) (hrest : Follows rest) :
    readScalar (x.text numberSpelling ++ rest) = .ok (.float x, rest) := by
  cases x with
  | finite negative m e ok =>
    obtain ⟨hne, hhead⟩ := magnitude_starts numberSpelling m e
    exact readScalar_signed _ hne hhead fun start => readNumber_magnitude numberSpelling ok hrest start
  | infinite negative => cases negative <;> rfl
  | nan => rfl

end ApiRoutes.Json
