import ApiRoutes.Json.Reader
import ApiRoutes.Json.Writer
import ApiRoutes.Proofs.Text
import Mathlib.Data.List.Chain
/-!
# Strings are read back

What is written for a text is read as the text (`readString_escapes`), unless two surrogates in a row are the halves
of a character: these are read as the character.
-/
namespace ApiRoutes.Json

/-- No two surrogates in a row are the halves of a character. -/
def IsJoined (t : Text) : Prop := t.IsChain fun c d => joined? c d = none

instance (t : Text) : Decidable (IsJoined t) := inferInstanceAs (Decidable (t.IsChain _))

/-- The code points of a string spell a text: one by one, or by the halves of a character. -/
inductive Spells : List Spelled → Text → Prop
  | nil : Spells [] []
  | one {c : CodePoint} {b : Bool} {xs : List Spelled} {t : Text} (h : Spells xs t) : Spells ((c, b) :: xs) (c :: t)
  | two {h l c : CodePoint} {xs : List Spelled} {t : Text} (hc : joined? h l = some c) (h' : Spells xs t) :
    Spells ((h, true) :: (l, true) :: xs) (c :: t)

/-- The text is read as code points, whatever follows it. -/
def Reads (t : Text) (xs : List Spelled) : Prop :=
  ∀ start rest, rest ≠ [] → readSpelled start (t ++ rest) = (readSpelled start rest).map fun r => (xs ++ r.1, r.2)

variable {c d h l : CodePoint} {t u : Text} {xs ys : List Spelled}

/-! ## Halves -/

theorem joined?_high (h' : joined? h l = some c) (d : CodePoint) : joined? d h = none := by
  cases h with
  | scalar => cases h'
  | surrogate o =>
    cases l with
    | scalar => cases h'
    | surrogate o' =>
      have hhigh : o.val < 0x400 := by
        by_contra hlow
        rw [joined?, if_neg fun h => hlow h.1] at h'
        cases h'
      cases d with
      | scalar => rfl
      | surrogate => exact if_neg fun h => absurd h.2 (by omega)

theorem joinHalves_spells (h : Spells xs t) (ht : IsJoined t) : joinHalves xs = t := by
  induction h with
  | nil => rfl
  | @one c b xs t h ih =>
    have hxs := ih ht.tail
    cases h with
    | nil => rfl
    | @one d b' xs t h =>
      have hnone : joined? c d = none := (List.isChain_cons_cons.1 ht).1
      rw [joinHalves, hxs, hnone, ite_self]
    | two hd h =>
      rw [joinHalves, hxs, joined?_high hd, ite_self]
  | two hc h ih =>
    rw [joinHalves, Bool.and_self, if_pos rfl, hc, ih ht.tail]

theorem Spells.append (h : Spells xs t) (h' : Spells ys u) : Spells (xs ++ ys) (t ++ u) := by
  induction h with
  | nil => exact h'
  | one _ ih => exact .one ih
  | two hc _ ih => exact .two hc ih

/-- A character beyond sixteen bits is spelled by its halves. -/
theorem exists_halves (hc : 0x10000 ≤ c.val) : ∃ h l, h.val = 0xD800 + (c.val - 0x10000) / 0x400 ∧
    l.val = 0xDC00 + (c.val - 0x10000) % 0x400 ∧ joined? h l = some c := by
  have hlt := c.val_lt
  refine ⟨.surrogate ⟨(c.val - 0x10000) / 0x400, by omega⟩, .surrogate ⟨0x400 + (c.val - 0x10000) % 0x400, by omega⟩, rfl,
    by simp only [CodePoint.val]; omega, ?_⟩
  have hvalue : 0x10000 + (c.val - 0x10000) / 0x400 * 0x400 + (0x400 + (c.val - 0x10000) % 0x400 - 0x400) = c.val := by
    omega
  rw [joined?, if_pos ⟨by dsimp only; omega, by dsimp only; omega⟩]
  dsimp only
  rw [hvalue, CodePoint.ofNat?_val]

/-! ## Escapes -/

theorem Reads.append (ht : Reads t xs) (hu : Reads u ys) : Reads (t ++ u) (xs ++ ys) := by
  intro start rest hrest
  rw [List.append_assoc, ht start _ (List.append_ne_nil_of_right_ne_nil u hrest), hu start rest hrest]
  cases readSpelled start rest with
  | error => rfl
  | ok r => simp only [Except.map, List.append_assoc]

theorem reads_nil : Reads [] [] := by
  intro start rest _
  rw [List.nil_append]
  cases readSpelled start rest <;> rfl

theorem reads_letter (h : letterEscape? d = some c) : Reads [.scalar '\\', d] [(c, false)] := by
  have hd : d ≠ .scalar 'u' := by
    rintro rfl
    cases h
  intro start rest hrest
  change readSpelled start (.scalar '\\' :: d :: rest) = _
  rw [readSpelled, h]
  · rfl
  all_goals simp_all

theorem reads_unitEscape (h : c.val < 0x10000) : Reads (unitEscape c.val) [(c, true)] := by
  obtain ⟨w, x, y, z, hdigits, hall, hvalue⟩ := Text.hex_four h
  intro start rest hrest
  obtain ⟨q, rest, rfl⟩ := List.exists_cons_of_ne_nil hrest
  have hfour : fourDigits? w x y z = some c := by rw [fourDigits?, if_pos hall, hvalue, CodePoint.ofNat?_val]
  rw [unitEscape, hdigits]
  change readSpelled start (.scalar '\\' :: .scalar 'u' :: w :: x :: y :: z :: q :: rest) = _
  rw [readSpelled, hfour]
  rfl

theorem reads_plain (h : 0x20 ≤ c.val) (hq : c ≠ .scalar '"') (hb : c ≠ .scalar '\\') : Reads [c] [(c, false)] := by
  intro start rest _
  change readSpelled start (c :: rest) = _
  rw [readSpelled, if_neg (Nat.not_lt.2 h)]
  · rfl
  all_goals simp_all

theorem reads_escapeCodePoint (c : CodePoint) : ∃ xs, Reads (escapeCodePoint c) xs ∧ Spells xs [c] := by
  fun_cases escapeCodePoint c with
  | case8 c hq hb _ _ _ _ _ n h => exact ⟨_, reads_plain h.1 hq hb, .one .nil⟩
  | case9 c _ _ _ _ _ _ _ n _ h => exact ⟨_, reads_unitEscape h, .one .nil⟩
  | case10 c _ _ _ _ _ _ _ n _ h =>
    obtain ⟨high, low, hhigh, hlow, hjoined⟩ := exists_halves (Nat.le_of_not_lt h)
    have hlt := c.val_lt
    have hreads := (reads_unitEscape (c := high) (by omega)).append (reads_unitEscape (c := low) (by omega))
    rw [hhigh, hlow] at hreads
    exact ⟨_, hreads, .two hjoined .nil⟩
  | _ => exact ⟨_, reads_letter rfl, .one .nil⟩

/-- **A text is spelled by what is written for it.** -/
theorem reads_escapes (t : Text) : ∃ xs, Reads (t.flatMap escapeCodePoint) xs ∧ Spells xs t := by
  induction t with
  | nil => exact ⟨[], reads_nil, .nil⟩
  | cons c t ih =>
    obtain ⟨xs, hxs, hc⟩ := reads_escapeCodePoint c
    obtain ⟨ys, hys, ht⟩ := ih
    exact ⟨xs ++ ys, hxs.append hys, hc.append ht⟩

/-- **What is written for a text is read as the text.** -/
theorem readString_escapes (ht : IsJoined t) (start rest : Text) :
    readString start (t.flatMap escapeCodePoint ++ .scalar '"' :: rest) = .ok (t, rest) := by
  obtain ⟨xs, hreads, hspells⟩ := reads_escapes t
  rw [readString, hreads _ _ (List.cons_ne_nil _ _), readSpelled]
  simp only [Except.map, List.append_nil, joinHalves_spells hspells ht]

end ApiRoutes.Json
