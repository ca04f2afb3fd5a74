import ApiRoutes.Text.Utf8
import Mathlib.Data.List.Basic
/-!
# Texts of characters

A text that characters spell, taken apart where it was put together; and the pieces of a text between the code points
that part it.
-/
namespace ApiRoutes

/-- A code point is the one of its number. -/
theorem CodePoint.ofNat?_val (c : CodePoint) : CodePoint.ofNat? c.val = some c := by
  cases c with
  | scalar ch =>
    have hvalid : ch.toNat.isValidChar := ch.valid
    exact dif_pos hvalid
  | surrogate o =>
    have ho := o.isLt
    have hinvalid : ¬ (0xD800 + o.val).isValidChar := by
      unfold Nat.isValidChar
      omega
    have hrange : 0xD800 ≤ 0xD800 + o.val ∧ 0xD800 + o.val < 0xE000 := by omega
    rw [CodePoint.ofNat?, CodePoint.val, dif_neg hinvalid, dif_pos hrange]
    simp only [Nat.add_sub_cancel_left]

theorem CodePoint.val_lt (c : CodePoint) : c.val < 0x110000 := by
  cases c with
  | scalar ch =>
    have hvalid : ch.toNat.isValidChar := ch.valid
    unfold Nat.isValidChar at hvalid
    change ch.toNat < 0x110000
    omega
  | surrogate o =>
    have := o.isLt
    change 0xD800 + o.val < 0x110000
    omega

namespace Text

variable {cs ds : List Char} {s t : Text}

theorem ofChars_inj (h : ofChars cs = ofChars ds) : cs = ds :=
  (List.map_inj_right fun _ _ h => CodePoint.scalar.inj h).1 h

theorem ofString_inj {a b : String} (h : ofString a = ofString b) : a = b :=
  Option.some.inj ((toString?_ofString a).symm.trans (h ▸ toString?_ofString b))

/-- Characters that a text is made of spell it. -/
theorem eq_ofChars : ∀ {t : Text} {cs : List Char}, t.toChars? = some cs → t = ofChars cs
  | [], cs, h => by
    cases h
    rfl
  | c :: t, cs, h => by
    rw [toChars?, List.mapM_cons] at h
    obtain ⟨ch, hch, h⟩ := Option.bind_eq_some_iff.1 h
    obtain ⟨ds, hds, h⟩ := Option.bind_eq_some_iff.1 h
    cases h
    rw [eq_ofChars hds]
    cases c with
    | scalar c => cases hch; rfl
    | surrogate => cases hch

/-- A character of a string has its bytes among those of the string. -/
theorem mem_toUTF8 {s : String} {c : Char} (h : c ∈ s.toList) :
    ∀ b ∈ String.utf8EncodeChar c, b ∈ s.toUTF8.data.toList := by
  intro b hb
  have hs : s.toUTF8 = s.toList.utf8Encode := calc
    s.toUTF8 = (String.ofList s.toList).toUTF8 := by rw [String.ofList_toList]
    _ = s.toList.utf8Encode := rfl
  rw [hs, List.utf8Encode, List.data_toByteArray]
  exact List.mem_flatMap.2 ⟨c, h, hb⟩

/-- Bytes that a text is written as spell it. -/
theorem ofUtf8?_of_toUtf8? {bytes : List UInt8} (h : t.toUtf8? = some bytes) : ofUtf8? bytes = some t := by
  obtain ⟨s, hs, hbytes⟩ := Option.map_eq_some_iff.1 h
  obtain ⟨cs, hcs, rfl⟩ := Option.map_eq_some_iff.1 hs
  subst hbytes
  have harray : ByteArray.mk (String.ofList cs).toUTF8.data.toList.toArray = (String.ofList cs).toUTF8 := by simp
  have hvalid : (String.ofList cs).toUTF8.IsValidUTF8 := String.isValidUTF8 _
  have hread : String.fromUTF8 (String.ofList cs).toUTF8 hvalid = String.ofList cs := rfl
  rw [ofUtf8?, harray, String.fromUTF8?, dif_pos hvalid, hread, eq_ofChars hcs]
  simp [ofString, ofChars]

theorem ofChars_append (cs ds : List Char) : ofChars (cs ++ ds) = ofChars cs ++ ofChars ds :=
  List.map_append

theorem ofChars_of_append (h : s ++ t = ofChars cs) :
    ∃ x y, cs = x ++ y ∧ s = ofChars x ∧ t = ofChars y := by
  obtain ⟨x, y, rfl, hs, ht⟩ := List.map_eq_append_iff.1 h.symm
  exact ⟨x, y, rfl, hs.symm, ht.symm⟩

/-- A text that starts with given characters. -/
theorem ofChars_of_chars_append (ds : List Char) (h : ofChars ds ++ t = ofChars cs) :
    ∃ y, cs = ds ++ y ∧ t = ofChars y := by
  obtain ⟨x, y, rfl, hx, ht⟩ := ofChars_of_append h
  exact ⟨y, by rw [ofChars_inj hx], ht⟩

/-- A text that ends in given characters. -/
theorem ofChars_of_append_chars (ds : List Char) (h : s ++ ofChars ds = ofChars cs) :
    ∃ x, cs = x ++ ds ∧ s = ofChars x := by
  obtain ⟨x, y, rfl, hs, hy⟩ := ofChars_of_append h
  exact ⟨x, by rw [ofChars_inj hy], hs⟩

theorem dropLead?_append (p t : Text) : dropLead? p (p ++ t) = some t := by
  induction p with
  | nil => cases t <;> rfl
  | cons c p ih => simpa [dropLead?] using ih

theorem startsWith_append (p t : Text) : startsWith (p ++ t) p = true := by
  rw [startsWith, dropLead?_append]
  rfl

/-! ## Pieces -/

theorem pieces_of_not_any {p : CodePoint → Bool} {t : Text} (h : ∀ c ∈ t, p c = false) : pieces p t = [t] := by
  induction t with
  | nil => rfl
  | cons c r ih =>
    simp only [List.mem_cons, forall_eq_or_imp] at h
    simp [pieces, h.1, ih h.2]

/-- The last piece of a text goes on as the text does. -/
theorem pieces_append {p : CodePoint → Bool} {t : Text} (h : ∀ c ∈ t, p c = false) (s : Text) :
    ∃ init x, pieces p s = init ++ [x] ∧ pieces p (s ++ t) = init ++ [x ++ t] := by
  induction s with
  | nil => exact ⟨[], [], rfl, pieces_of_not_any h⟩
  | cons c r ih =>
    obtain ⟨init, x, hs, hr⟩ := ih
    by_cases hc : p c
    · exact ⟨[] :: init, x, by simp [pieces, hc, hs], by simp [pieces, hc, hr]⟩
    · cases init with
      | nil => exact ⟨[], c :: x, by simp [pieces, hc, hs], by simp [pieces, hc, hr]⟩
      | cons l ls => exact ⟨(c :: l) :: ls, x, by simp [pieces, hc, hs], by simp [pieces, hc, hr]⟩

theorem pieces_ne_nil (p : CodePoint → Bool) (t : Text) : pieces p t ≠ [] := by
  obtain ⟨init, x, h, -⟩ := pieces_append (p := p) (t := []) (by simp) t
  rw [h]
  simp

theorem pieces_cons_of_not {p : CodePoint → Bool} {c : CodePoint} (hc : p c = false) (r : Text) :
    ∃ l ls, pieces p r = l :: ls ∧ pieces p (c :: r) = (c :: l) :: ls := by
  obtain ⟨l, ls, h⟩ := List.exists_cons_of_ne_nil (pieces_ne_nil p r)
  exact ⟨l, ls, h, by simp [pieces, hc, h]⟩

theorem pieces_append_sep {p : CodePoint → Bool} {c : CodePoint} (hc : p c = true) (s t : Text) :
    pieces p (s ++ c :: t) = pieces p s ++ pieces p t := by
  induction s with
  | nil => simp [pieces, hc]
  | cons b r ih =>
    by_cases hb : p b
    · simp [pieces, hb, ih]
    · obtain ⟨l, ls, hr, hbr⟩ := pieces_cons_of_not (eq_false_of_ne_true hb) r
      simp [pieces, hb, ih, hr]

theorem not_sep_of_mem_pieces {p : CodePoint → Bool} {t q : Text} (hq : q ∈ pieces p t) : ∀ c ∈ q, p c = false := by
  induction t generalizing q with
  | nil =>
    cases List.mem_singleton.1 hq
    nofun
  | cons b r ih =>
    by_cases hb : p b = true
    · rw [pieces, if_pos hb, List.mem_cons] at hq
      obtain rfl | hq := hq
      · nofun
      · exact ih hq
    · obtain ⟨l, ls, hr, hbr⟩ := pieces_cons_of_not (eq_false_of_ne_true hb) r
      rw [hr] at ih
      rw [hbr, List.mem_cons] at hq
      obtain rfl | hq := hq
      · exact List.forall_mem_cons.2 ⟨eq_false_of_ne_true hb, ih List.mem_cons_self⟩
      · exact ih (List.mem_cons_of_mem _ hq)

/-- Pieces put together with separators are taken apart into the same pieces. -/
theorem pieces_joinWith {p : CodePoint → Bool} {c : CodePoint} (hc : p c = true) : ∀ {ts : List Text}, ts ≠ [] →
    (∀ t ∈ ts, ∀ d ∈ t, p d = false) → pieces p (joinWith [c] ts) = ts
  | [], h, _ => absurd rfl h
  | [t], _, h => pieces_of_not_any (h t List.mem_cons_self)
  | t :: u :: ts, _, h => by
    have ih := pieces_joinWith hc (List.cons_ne_nil u ts) fun s hs => h s (List.mem_cons_of_mem _ hs)
    rw [joinWith, List.append_assoc, List.singleton_append, pieces_append_sep hc, ih,
      pieces_of_not_any (h t List.mem_cons_self), List.singleton_append]

theorem exists_lines (t : Text) : ∃ first rest, lines t = first :: rest := List.exists_cons_of_ne_nil (pieces_ne_nil _ t)

theorem lines_joinWith {ts : List Text} (h : ts ≠ []) (hts : ∀ t ∈ ts, ∀ c ∈ t, (c == CodePoint.scalar '\n') = false) :
    lines (joinWith "\n" ts) = ts :=
  pieces_joinWith (p := (· == CodePoint.scalar '\n')) (c := .scalar '\n') (beq_self_eq_true _) h hts

/-! ## Hexadecimal digits -/

theorem hexDigit?_digitChar : ∀ n < 16, hexDigit? (.scalar (Nat.digitChar n)) = some n := by decide

theorem hexValue_append_singleton (ds : Text) (d : CodePoint) :
    hexValue (ds ++ [d]) = 16 * hexValue ds + (hexDigit? d).getD 0 := by
  rw [hexValue, List.foldl_append]
  rfl

theorem hexDigits_toDigits (n : Nat) :
    (ofChars (Nat.toDigits 16 n)).all isHexDigit = true ∧ hexValue (ofChars (Nat.toDigits 16 n)) = n := by
  induction n using Nat.strongRecOn with
  | ind n ih =>
    by_cases hn : n < 16
    · have hdigit := hexDigit?_digitChar n hn
      rw [Nat.toDigits_of_lt_base hn]
      simp [ofChars, isHexDigit, hexValue, hdigit]
    · obtain ⟨hall, hvalue⟩ := ih (n / 16) (by omega)
      have hdigit := hexDigit?_digitChar (n % 16) (Nat.mod_lt n (by decide))
      have hsplit : ofChars (Nat.toDigits 16 n) =
          ofChars (Nat.toDigits 16 (n / 16)) ++ [.scalar (Nat.digitChar (n % 16))] := by
        rw [Nat.toDigits_of_base_le (by decide) (Nat.le_of_not_lt hn)]
        exact ofChars_append _ _
      rw [hsplit, List.all_append, hall, hexValue_append_singleton, hvalue, hdigit]
      refine ⟨by simp [isHexDigit, hdigit], ?_⟩
      simp only [Option.getD_some]
      omega

theorem hexValue_zeros_append (k : Nat) (t : Text) : hexValue (ofChars (List.replicate k '0') ++ t) = hexValue t := by
  induction k with
  | zero => rfl
  | succ k ih => exact ih

/-- **A number below `0x10000` has four hexadecimal digits.** -/
theorem hex_four {n : Nat} (h : n < 0x10000) :
    ∃ a b c d, hex 4 n = [a, b, c, d] ∧ [a, b, c, d].all isHexDigit = true ∧ hexValue [a, b, c, d] = n := by
  obtain ⟨hall, hvalue⟩ := hexDigits_toDigits n
  have hlength : (Nat.toDigits 16 n).length ≤ 4 := (Nat.length_toDigits_le_iff (by decide) (by decide)).2 h
  have hhex : hex 4 n = ofChars (List.replicate (4 - (Nat.toDigits 16 n).length) '0') ++ ofChars (Nat.toDigits 16 n) :=
    ofChars_append _ _
  have hfour : (hex 4 n).length = 4 := by
    rw [hhex, List.length_append]
    simp only [ofChars, List.length_map, List.length_replicate]
    omega
  have hzeros : (ofChars (List.replicate (4 - (Nat.toDigits 16 n).length) '0')).all isHexDigit = true := by
    simp [ofChars, isHexDigit, hexDigit?]
  obtain ⟨a, b, c, d, hdigits⟩ := List.length_eq_four.1 hfour
  refine ⟨a, b, c, d, hdigits, ?_, ?_⟩
  · rw [← hdigits, hhex, List.all_append, hall, hzeros]
    rfl
  · rw [← hdigits, hhex, hexValue_zeros_append, hvalue]

end Text

end ApiRoutes
