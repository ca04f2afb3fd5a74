import ApiRoutes.Json.Writer
import ApiRoutes.Proofs.Script.Numerals
/-!
# JSON is written in ASCII

Whatever a value holds, it is written in the printable characters of ASCII and line feeds alone (`render_ascii`), as
all other code points of a text become escapes (`renderText_ascii`).
-/
namespace ApiRoutes.Json

open Script Binary64

def isAscii (c : CodePoint) : Bool := c == '\n' || (0x20 ≤ c.val && c.val < 0x7F)

/-- All code points of the text are printable characters of ASCII or line feeds. -/
abbrev Ascii (t : Text) : Prop := t.all isAscii = true

variable {t : Text} {cs : List Char} {level : Nat}

theorem Ascii.append {s t : Text} (hs : Ascii s) (ht : Ascii t) : Ascii (s ++ t) := by
  rw [Ascii, List.all_append, hs, ht, Bool.and_true]

theorem isAscii_of_range {c : CodePoint} (hlow : 0x20 ≤ c.val) (hhigh : c.val < 0x7F) : isAscii c = true := by
  rw [isAscii, decide_eq_true hlow, decide_eq_true hhigh, Bool.and_self, Bool.or_true]

theorem ascii_blanks (n : Nat) : Ascii (Text.blanks n) :=
  List.all_eq_true.2 fun _ hc => List.eq_of_mem_replicate hc ▸ (by decide)

theorem ascii_joinWith {separator : Text} (hs : Ascii separator) : ∀ {texts : List Text}, (∀ t ∈ texts, Ascii t) →
    Ascii (Text.joinWith separator texts)
  | [], _ => rfl
  | [t], h => h t List.mem_cons_self
  | t :: _ :: _, h =>
    ((h t List.mem_cons_self).append hs).append (ascii_joinWith hs fun v hv => h v (List.mem_cons_of_mem t hv))

/-! ## Texts -/

theorem isAscii_of_isHexDigit {c : CodePoint} (h : Text.isHexDigit c = true) : isAscii c = true := by
  cases c with
  | surrogate => cases h
  | scalar c =>
    have hle {a b : Char} : a ≤ b ↔ a.toNat ≤ b.toNat := UInt32.le_iff_toNat_le
    have hrange : 0x20 ≤ c.toNat ∧ c.toNat < 0x7F := by
      unfold Text.isHexDigit Text.hexDigit? at h
      simp only [hle, Char.reduceToNat] at h
      split at h
      · omega
      · split at h
        · omega
        · split at h
          · omega
          · cases h
    exact isAscii_of_range hrange.1 hrange.2

theorem ascii_unitEscape {n : Nat} (h : n < 0x10000) : Ascii (unitEscape n) := by
  obtain ⟨a, b, c, d, hhex, hdigits, -⟩ := Text.hex_four h
  rw [unitEscape, hhex]
  exact .append (by decide) (List.all_eq_true.2 fun c hc => isAscii_of_isHexDigit (List.all_eq_true.1 hdigits c hc))

theorem ascii_escapeCodePoint (c : CodePoint) : Ascii (escapeCodePoint c) := by
  have hlt := c.val_lt
  unfold escapeCodePoint
  split
  case h_8 =>
    dsimp only
    split
    · rename_i hprintable
      rw [Ascii, List.all_cons, isAscii_of_range hprintable.1 hprintable.2]
      rfl
    · split
      · rename_i hshort
        exact ascii_unitEscape hshort
      · exact (ascii_unitEscape (by omega)).append (ascii_unitEscape (by omega))
  all_goals decide

theorem renderText_ascii (t : Text) : Ascii (renderText t) := by
  refine .append (.append (by decide) (List.all_eq_true.2 fun c hc => ?_)) (by decide)
  obtain ⟨d, -, hc⟩ := List.mem_flatMap.1 hc
  exact List.all_eq_true.1 (ascii_escapeCodePoint d) c hc

/-! ## Numbers -/

theorem ascii_digits (h : cs.all Char.isDigit = true) : Ascii (Text.ofChars cs) := by
  refine List.all_eq_true.2 fun c hc => ?_
  obtain ⟨d, hd, rfl⟩ := List.mem_map.1 hc
  obtain ⟨hlow, hhigh⟩ := Char.isDigit_iff_toNat.1 (List.all_eq_true.1 h d hd)
  exact isAscii_of_range (Nat.le_trans (by decide) hlow) (Nat.lt_of_le_of_lt hhigh (by decide))

theorem ascii_ofInt (i : Int) : Ascii (Text.ofInt i) := by
  cases i with
  | ofNat n => exact ascii_digits (all_isDigit_toDigits n)
  | negSucc n => exact Ascii.append (s := [.scalar '-']) (by decide) (ascii_digits (all_isDigit_toDigits (n + 1)))

theorem ascii_magnitude (s : Spelling) (m : Nat) (e : Int) : Ascii (Text.ofChars (magnitude s m e)) := by
  obtain ⟨whole, fraction, exponent, hparts⟩ := hasParts_magnitude s m e
  rw [hparts.eq, Text.ofChars_append, Text.ofChars_append]
  refine (ascii_digits hparts.isWhole.digits).append (.append ?_ ?_)
  · cases hparts.isFraction with
    | absent => rfl
    | digits _ hfs => exact Ascii.append (s := [.scalar '.']) (by decide) (ascii_digits hfs)
  · cases hparts.isExponent with
    | absent => rfl
    | ofInt e =>
      obtain ⟨sign, es, htext, hsign, -, hes⟩ := exists_exponentText e
      rw [htext]
      refine Ascii.append (s := [.scalar 'e', .scalar sign]) ?_ (ascii_digits hes)
      rcases hsign with rfl | rfl <;> decide

theorem ascii_float (x : Binary64) : Ascii (x.text numberSpelling) := by
  cases x with
  | nan => decide
  | infinite negative => cases negative <;> decide
  | finite negative m e ok =>
    cases negative with
    | false => exact ascii_magnitude _ m e
    | true => exact Ascii.append (s := [.scalar '-']) (by decide) (ascii_magnitude _ m e)

/-! ## Values -/

theorem ascii_bracketed {opening closing : Text} {texts : List Text} (ho : Ascii opening) (hc : Ascii closing)
    (level : Nat) (h : ∀ t ∈ texts, Ascii t) : Ascii (bracketed opening closing level texts) := by
  have hbreak (level : Nat) : Ascii (lineBreak level) := .append (by decide) (ascii_blanks _)
  unfold bracketed
  split
  · exact ho.append hc
  · have hseparator : Ascii ("," ++ lineBreak (level + 1)) := .append (by decide) (hbreak _)
    have hjoined := ascii_joinWith hseparator h
    exact (((ho.append (hbreak _)).append hjoined).append (hbreak _)).append hc

mutual

theorem renderAt_ascii : ∀ (level : Nat) (v : Value), Ascii (renderAt level v)
  | level, .map entries => ascii_bracketed (by decide) (by decide) level (renderEntries_ascii (level + 1) entries)
  | level, .list items => ascii_bracketed (by decide) (by decide) level (renderItems_ascii (level + 1) items)
  | level, .set items => ascii_bracketed (by decide) (by decide) level (renderItems_ascii (level + 1) items)
  | _, .null => rfl
  | _, .bool b => by cases b <;> rfl
  | _, .int i => ascii_ofInt i
  | _, .float x => ascii_float x
  | _, .text t => renderText_ascii t
  | _, .date d => renderText_ascii d.isoText
  | _, .dateTime d => renderText_ascii (d.isoText 'T')
  | _, .bytes bs => renderText_ascii (Value.displayBytes bs)

theorem renderItems_ascii : ∀ (level : Nat) (items : List Value), ∀ t ∈ renderItems level items, Ascii t
  | _, [] => nofun
  | level, v :: items => List.forall_mem_cons.2 ⟨renderAt_ascii level v, renderItems_ascii level items⟩

theorem renderEntries_ascii : ∀ (level : Nat) (entries : Entries), ∀ t ∈ renderEntries level entries, Ascii t
  | _, [] => nofun
  | level, (key, v) :: entries => List.forall_mem_cons.2
    ⟨((renderText_ascii (keyText key)).append (by decide)).append (renderAt_ascii level v),
      renderEntries_ascii level entries⟩

end

/-- **A value is written in ASCII.** -/
theorem render_ascii (v : Value) : Ascii (render v) := renderAt_ascii 0 v

end ApiRoutes.Json
