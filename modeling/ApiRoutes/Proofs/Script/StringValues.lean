import ApiRoutes.Proofs.Script.Quoted
import Mathlib.Algebra.Ring.Nat
import Mathlib.Data.List.Chain
import Mathlib.Data.List.Induction
/-!
# The value of a string literal

The string literals of the script language in strict mode, part by part as its grammar has them (`Literal`), each
with the value that the language gives it, in code units of sixteen bits.  What is read from a literal is that value
exactly when every line that it continues ends in a line feed (`unquote_value`): the other ends of a line stay in the
text (`unquote_keepsLineEnd`).
-/
namespace ApiRoutes

/-- The code units of a code point; beyond sixteen bits there are two of them. -/
def codeUnits (n : Nat) : List UInt16 :=
  if n < 0x10000 then [UInt16.ofNat n]
  else [UInt16.ofNat (0xD800 + (n - 0x10000) / 0x400), UInt16.ofNat (0xDC00 + (n - 0x10000) % 0x400)]

def Text.codeUnits (t : Text) : List UInt16 := t.flatMap fun c => ApiRoutes.codeUnits c.val

theorem Text.codeUnits_append (t u : Text) : Text.codeUnits (t ++ u) = Text.codeUnits t ++ Text.codeUnits u :=
  List.flatMap_append

/-- Every number below the limit is that of a code point. -/
theorem CodePoint.exists_ofNat? {n : Nat} (h : n < 0x110000) : ∃ c, CodePoint.ofNat? n = some c ∧ c.val = n := by
  unfold CodePoint.ofNat?
  by_cases hv : n.isValidChar
  · rw [dif_pos hv]
    exact ⟨_, rfl, rfl⟩
  · have hs : 0xD800 ≤ n ∧ n < 0xE000 := by
      simp only [Nat.isValidChar] at hv
      omega
    rw [dif_neg hv, dif_pos hs]
    exact ⟨_, rfl, by simp only [CodePoint.val]; omega⟩

namespace Script

/-! ## The grammar -/

/-- A hexadecimal digit: its value, and whether a letter is written as a capital. -/
structure HexDigit where
  value : Fin 16
  capital : Bool
  deriving DecidableEq

def HexDigit.char (d : HexDigit) : Char :=
  if d.capital then (Nat.digitChar d.value).toUpper else Nat.digitChar d.value

def HexDigit.textOf (ds : List HexDigit) : Text := ds.map fun d => .scalar d.char

def HexDigit.number (ds : List HexDigit) : Nat := ds.foldl (fun n d => 16 * n + d.value) 0

/-- What ends a line. -/
inductive LineEnd where
  | lineFeed
  | carriageReturn
  | returnAndFeed
  | lineSeparator
  | paragraphSeparator
  deriving DecidableEq

def LineEnd.text : LineEnd → Text
  | .lineFeed => "\n"
  | .carriageReturn => "\r"
  | .returnAndFeed => "\r\n"
  | .lineSeparator => "\u2028"
  | .paragraphSeparator => "\u2029"

/-- A part of a string literal. -/
inductive LiteralPart where
  /-- A code point that stands for itself. -/
  | plain (c : CodePoint)
  /-- A code point after a backslash. -/
  | escaped (c : CodePoint)
  /-- The escape of the null character. -/
  | null
  | twoDigits (a b : HexDigit)
  | fourDigits (a b c d : HexDigit)
  /-- An escape with any number of digits in braces; the first digit is given on its own. -/
  | braced (d : HexDigit) (ds : List HexDigit)
  /-- A line that goes on after its end. -/
  | continued (e : LineEnd)
  deriving DecidableEq

def isDecimalDigit (c : CodePoint) : Bool := c.holds Char.isDigit

namespace LiteralPart

def text : LiteralPart → Text
  | .plain c => [c]
  | .escaped c => [.scalar '\\', c]
  | .null => "\\0"
  | .twoDigits a b => "\\x" ++ HexDigit.textOf [a, b]
  | .fourDigits a b c d => "\\u" ++ HexDigit.textOf [a, b, c, d]
  | .braced d ds => "\\u\x7b" ++ HexDigit.textOf (d :: ds) ++ "\x7d"
  | .continued e => .scalar '\\' :: e.text

/-- The code point that an escaped one stands for. -/
def meaning (c : CodePoint) : Nat :=
  match c with
  | 'b' => 0x08
  | 't' => 0x09
  | 'n' => 0x0A
  | 'v' => 0x0B
  | 'f' => 0x0C
  | 'r' => 0x0D
  | c => c.val

/-- The value that the language gives a part. -/
def value : LiteralPart → List UInt16
  | .plain c => codeUnits c.val
  | .escaped c => codeUnits (meaning c)
  | .null => [0]
  | .twoDigits a b => [UInt16.ofNat (HexDigit.number [a, b])]
  | .fourDigits a b c d => [UInt16.ofNat (HexDigit.number [a, b, c, d])]
  | .braced d ds => codeUnits (HexDigit.number (d :: ds))
  | .continued _ => []

/-- May the part stand in a literal between these quotes? -/
def IsAllowed (quote : Char) : LiteralPart → Prop
  | .plain c => c ∉ [.scalar quote, .scalar '\\', .scalar '\n', .scalar '\r']
  | .escaped c => isDecimalDigit c = false ∧
      c ∉ [.scalar 'x', .scalar 'u', .scalar '\n', .scalar '\r', .scalar '\u2028', .scalar '\u2029']
  | .braced d ds => HexDigit.number (d :: ds) < 0x110000
  | _ => True

instance (quote : Char) : (p : LiteralPart) → Decidable (p.IsAllowed quote)
  | .plain _ => inferInstanceAs (Decidable (_ ∉ _))
  | .escaped _ => inferInstanceAs (Decidable (_ ∧ _))
  | .braced _ _ => inferInstanceAs (Decidable (_ < _))
  | .null | .twoDigits _ _ | .fourDigits _ _ _ _ | .continued _ => inferInstanceAs (Decidable True)

/-- The escape of the null character is none before a decimal digit. -/
def MayPrecede : LiteralPart → LiteralPart → Prop
  | .null, .plain c => isDecimalDigit c = false
  | _, _ => True

end LiteralPart

/-- A string literal of the language in strict mode. -/
structure Literal where
  quote : Char
  parts : List LiteralPart
  isQuote : quote = '\'' ∨ quote = '"'
  areAllowed : ∀ p ∈ parts, p.IsAllowed quote
  areApart : parts.IsChain LiteralPart.MayPrecede

namespace Literal

def text (l : Literal) : Text :=
  .scalar l.quote :: (l.parts.flatMap LiteralPart.text ++ [.scalar l.quote])

/-- The value that the language gives a literal. -/
def value (l : Literal) : List UInt16 := l.parts.flatMap LiteralPart.value

end Literal

/-! ## Digits -/

theorem HexDigit.hexDigit?_char : ∀ d : HexDigit, Text.hexDigit? (.scalar d.char) = some d.value.val
  | ⟨v, c⟩ => by
    have h : ∀ (v : Fin 16) (c : Bool), Text.hexDigit? (.scalar (HexDigit.char ⟨v, c⟩)) = some v.val := by decide
    exact h v c

theorem HexDigit.isHexDigit_char (d : HexDigit) : Text.isHexDigit (.scalar d.char) = true := by
  rw [Text.isHexDigit, hexDigit?_char]
  rfl

theorem HexDigit.all_textOf (ds : List HexDigit) : (HexDigit.textOf ds).all Text.isHexDigit = true := by
  rw [List.all_eq_true]
  intro c hc
  obtain ⟨d, -, rfl⟩ := List.mem_map.1 hc
  exact d.isHexDigit_char

theorem HexDigit.hexValue_textOf (ds : List HexDigit) : Text.hexValue (HexDigit.textOf ds) = HexDigit.number ds := by
  rw [Text.hexValue, HexDigit.textOf, List.foldl_map]
  simp only [hexDigit?_char, Option.getD_some, HexDigit.number]

theorem HexDigit.number_lt (ds : List HexDigit) : HexDigit.number ds < 16 ^ ds.length := by
  induction ds using List.reverseRecOn with
  | nil => exact Nat.one_pos
  | append_singleton ds d ih =>
    have hd := d.value.isLt
    rw [HexDigit.number, List.foldl_append, List.length_append, List.length_singleton, Nat.pow_succ]
    rw [HexDigit.number] at ih
    simp only [List.foldl_cons, List.foldl_nil]
    omega

/-! ## What is read from a part -/

/-- The code units that are read from a part: its value, but for the ends of lines that are no line feeds. -/
def LiteralPart.read : LiteralPart → List UInt16
  | .continued .lineFeed => []
  | .continued e => e.text.codeUnits
  | p => p.value

/-- A text is read as code units, and so is what follows it. -/
def ReadsUnits (t : Text) (us : List UInt16) : Prop :=
  ∃ x : Text, x.codeUnits = us ∧ ∀ r, unescape (t ++ r) = (unescape r).map (x ++ ·)

variable {t u : Text} {us vs : List UInt16}

theorem readsUnits_nil : ReadsUnits [] [] := ⟨[], rfl, fun r => by
  rw [List.nil_append]
  cases unescape r <;> rfl⟩

theorem ReadsUnits.append (ht : ReadsUnits t us) (hu : ReadsUnits u vs) : ReadsUnits (t ++ u) (us ++ vs) := by
  obtain ⟨x, rfl, hx⟩ := ht
  obtain ⟨y, rfl, hy⟩ := hu
  refine ⟨x ++ y, Text.codeUnits_append x y, fun r => ?_⟩
  rw [List.append_assoc, hx, hy]
  cases unescape r with
  | error f => rfl
  | ok v => simp [Except.map]

theorem readsUnits_single {c : CodePoint} (h : ∀ r, unescape (t ++ r) = (unescape r).map (c :: ·)) :
    ReadsUnits t (codeUnits c.val) :=
  ⟨[c], List.append_nil _, h⟩

theorem readsUnits_plain {c : CodePoint} (h : c ≠ .scalar '\\') : ReadsUnits [c] (codeUnits c.val) :=
  readsUnits_single fun r => unescape_plain h r

theorem readsUnits_escaped {c : CodePoint} (hn : c ≠ .scalar '\n') (hu : c ≠ .scalar 'u') (hx : c ≠ .scalar 'x') :
    ReadsUnits [.scalar '\\', c] (codeUnits (letterEscape c).val) := by
  refine readsUnits_single fun r => ?_
  cases c with
  | scalar c => exact unescape_letter (fun h => hn (h ▸ rfl)) (fun h => hu (h ▸ rfl)) (fun h => hx (h ▸ rfl)) r
  | surrogate o => exact unescape_backslash _

/-- An escape by a number is read as the code point of the number. -/
theorem readsUnits_number {n : Nat} {x : Text} (h : ∀ r, numberEscape? (x ++ r) = some (n, r)) (hn : n < 0x110000) :
    ReadsUnits (.scalar '\\' :: x) (codeUnits n) := by
  obtain ⟨c, hc, rfl⟩ := CodePoint.exists_ofNat? hn
  refine readsUnits_single fun r => ?_
  rw [List.cons_append, unescape_backslash, h]
  simp only [codePointOf, hc]
  cases unescape r <;> rfl

theorem readsUnits_twoDigits (a b : HexDigit) :
    ReadsUnits (LiteralPart.twoDigits a b).text (LiteralPart.twoDigits a b).value := by
  have hlt : HexDigit.number [a, b] < 0x100 := by simpa using HexDigit.number_lt [a, b]
  have hvalue : (LiteralPart.twoDigits a b).value = codeUnits (HexDigit.number [a, b]) := by
    rw [LiteralPart.value, codeUnits, if_pos (by omega)]
  rw [hvalue, ← HexDigit.hexValue_textOf]
  refine readsUnits_number (x := .scalar 'x' :: HexDigit.textOf [a, b]) (fun r => ?_) ?_
  · exact if_pos (HexDigit.all_textOf [a, b])
  · rw [HexDigit.hexValue_textOf]
    omega

theorem readsUnits_fourDigits (a b c d : HexDigit) :
    ReadsUnits (LiteralPart.fourDigits a b c d).text (LiteralPart.fourDigits a b c d).value := by
  have hlt : HexDigit.number [a, b, c, d] < 0x10000 := by simpa using HexDigit.number_lt [a, b, c, d]
  have hvalue : (LiteralPart.fourDigits a b c d).value = codeUnits (HexDigit.number [a, b, c, d]) := by
    rw [LiteralPart.value, codeUnits, if_pos hlt]
  rw [hvalue, ← HexDigit.hexValue_textOf]
  refine readsUnits_number (x := .scalar 'u' :: HexDigit.textOf [a, b, c, d]) (fun r => ?_) ?_
  · have ha : CodePoint.scalar a.char ≠ .scalar '\x7b' := fun h => by
      have := a.isHexDigit_char
      rw [h] at this
      cases this
    change numberEscape? (.scalar 'u' :: .scalar a.char :: .scalar b.char :: .scalar c.char :: .scalar d.char :: r) = _
    rw [numberEscape?]
    · exact if_pos (HexDigit.all_textOf [a, b, c, d])
    · exact ha
  · rw [HexDigit.hexValue_textOf]
    omega

theorem readsUnits_braced {d : HexDigit} {ds : List HexDigit} (h : HexDigit.number (d :: ds) < 0x110000) :
    ReadsUnits (LiteralPart.braced d ds).text (LiteralPart.braced d ds).value := by
  have htext : (LiteralPart.braced d ds).text =
      .scalar '\\' :: (.scalar 'u' :: .scalar '\x7b' :: (HexDigit.textOf (d :: ds) ++ [.scalar '\x7d'])) := rfl
  rw [htext, LiteralPart.value]
  refine readsUnits_number (fun r => ?_) h
  have hall : ∀ c ∈ HexDigit.textOf (d :: ds), Text.isHexDigit c = true :=
    List.all_eq_true.1 (HexDigit.all_textOf (d :: ds))
  have hstop : ¬ Text.isHexDigit (.scalar '\x7d') = true := by decide
  have hsplit : .scalar 'u' :: .scalar '\x7b' :: (HexDigit.textOf (d :: ds) ++ [.scalar '\x7d']) ++ r =
      .scalar 'u' :: .scalar '\x7b' :: (HexDigit.textOf (d :: ds) ++ .scalar '\x7d' :: r) := by simp
  rw [hsplit, ← HexDigit.hexValue_textOf, numberEscape?, List.takeWhile_append_of_pos hall,
    List.dropWhile_append_of_pos hall, List.takeWhile_cons_of_neg hstop, List.dropWhile_cons_of_neg hstop,
    List.append_nil]
  rfl

theorem readsUnits_continued (e : LineEnd) : ReadsUnits (LiteralPart.continued e).text (LiteralPart.continued e).read := by
  cases e with
  | lineFeed =>
    refine ⟨[], rfl, fun r => ?_⟩
    change unescape (.scalar '\\' :: .scalar '\n' :: r) = _
    rw [unescape_backslash]
    change unescape r = _
    cases unescape r <;> rfl
  | returnAndFeed => exact (readsUnits_escaped (by decide) (by decide) (by decide)).append (readsUnits_plain (by decide))
  | carriageReturn | lineSeparator | paragraphSeparator => exact readsUnits_escaped (by decide) (by decide) (by decide)

theorem meaning_eq {c : CodePoint} (h : isDecimalDigit c = false) : LiteralPart.meaning c = (letterEscape c).val := by
  unfold LiteralPart.meaning letterEscape
  split
  all_goals first | rfl | skip
  rename_i hb ht hn hv hf hr
  split
  all_goals first | rfl | contradiction

theorem LiteralPart.reads {p : LiteralPart} {quote : Char} (h : p.IsAllowed quote) : ReadsUnits p.text p.read := by
  cases p with
  | plain c => exact readsUnits_plain fun hc => h (by simp [hc])
  | escaped c =>
    obtain ⟨hdigit, hc⟩ := h
    have hne {d : CodePoint} (hd : d ∈ ([.scalar 'x', .scalar 'u', .scalar '\n', .scalar '\r', .scalar '\u2028',
        .scalar '\u2029'] : List CodePoint)) : c ≠ d := fun hcd => hc (hcd ▸ hd)
    change ReadsUnits _ (codeUnits (meaning c))
    rw [meaning_eq hdigit]
    exact readsUnits_escaped (hne (by decide)) (hne (by decide)) (hne (by decide))
  | null => exact readsUnits_escaped (c := .scalar '0') (by decide) (by decide) (by decide)
  | twoDigits a b => exact readsUnits_twoDigits a b
  | fourDigits a b c d => exact readsUnits_fourDigits a b c d
  | braced d ds => exact readsUnits_braced h
  | continued e => exact readsUnits_continued e

/-! ## The value -/

theorem unescape_nil : unescape [] = .ok [] := by rw [unescape.eq_def]

/-- What is read from a literal, part by part. -/
theorem unquote_text (l : Literal) : ∃ t, unquote l.text = .ok t ∧ t.codeUnits = l.parts.flatMap LiteralPart.read := by
  have hparts : ∀ ps : List LiteralPart, (∀ p ∈ ps, p.IsAllowed l.quote) →
      ReadsUnits (ps.flatMap LiteralPart.text) (ps.flatMap LiteralPart.read) := by
    intro ps
    induction ps with
    | nil => exact fun _ => readsUnits_nil
    | cons p ps ih =>
      intro h
      rw [List.forall_mem_cons] at h
      exact (LiteralPart.reads h.1).append (ih h.2)
  obtain ⟨t, ht, hread⟩ := hparts l.parts l.areAllowed
  refine ⟨t, ?_, ht⟩
  have hbody := hread []
  rw [List.append_nil, unescape_nil] at hbody
  rw [unquote, Literal.text, List.drop_succ_cons, List.drop_zero, List.dropLast_concat, hbody]
  simp [Except.map]

theorem LineEnd.codeUnits_ne_nil (e : LineEnd) : e.text.codeUnits ≠ [] := by cases e <;> decide

/-- More is read from a part than its value exactly when it goes on after a line end that is no line feed. -/
theorem LiteralPart.value_sublist_read (p : LiteralPart) :
    p.value.Sublist p.read ∧ (p.read = p.value ↔ ∀ e, p = .continued e → e = .lineFeed) := by
  cases p with
  | continued e =>
    refine ⟨List.nil_sublist _, ?_⟩
    cases e with
    | lineFeed => simp [read, value]
    | _ => simp [read, value, LineEnd.codeUnits_ne_nil]
  | _ => exact ⟨List.Sublist.refl _, iff_of_true rfl nofun⟩

theorem flatMap_value_sublist_read : ∀ ps : List LiteralPart,
    (ps.flatMap LiteralPart.value).Sublist (ps.flatMap LiteralPart.read)
  | [] => .slnil
  | p :: ps => p.value_sublist_read.1.append (flatMap_value_sublist_read ps)

/-- Each part is read as its value or more, so that all are read as their value only when each one is. -/
theorem flatMap_read_eq_iff : ∀ ps : List LiteralPart, ps.flatMap LiteralPart.read = ps.flatMap LiteralPart.value ↔
    ∀ e, .continued e ∈ ps → e = .lineFeed
  | [] => by simp
  | p :: ps => by
    obtain ⟨hsublist, hp⟩ := p.value_sublist_read
    rw [List.flatMap_cons, List.flatMap_cons]
    constructor
    · intro h e he
      have hlength := congrArg List.length h
      rw [List.length_append, List.length_append] at hlength
      have := hsublist.length_le
      have := (flatMap_value_sublist_read ps).length_le
      obtain ⟨hfirst, hrest⟩ := List.append_inj h (by omega)
      rcases List.mem_cons.1 he with he | he
      · exact hp.1 hfirst e he.symm
      · exact (flatMap_read_eq_iff ps).1 hrest e he
    · intro h
      rw [hp.2 fun e he => h e (he ▸ List.mem_cons_self),
        (flatMap_read_eq_iff ps).2 fun e he => h e (List.mem_cons_of_mem p he)]

/-- **A string literal is read as its value** exactly when every line that it continues ends in a line feed. -/
theorem unquote_value (l : Literal) :
    ∃ t, unquote l.text = .ok t ∧ (t.codeUnits = l.value ↔ ∀ e, .continued e ∈ l.parts → e = .lineFeed) := by
  obtain ⟨t, ht, hread⟩ := unquote_text l
  refine ⟨t, ht, ?_⟩
  rw [hread, Literal.value]
  exact flatMap_read_eq_iff l.parts

/-- The literal of the letters `a` and `b` with a line separator between them that is escaped. -/
def separatedLetters : Literal where
  quote := '\''
  parts := [.plain (.scalar 'a'), .continued .lineSeparator, .plain (.scalar 'b')]
  isQuote := .inl rfl
  areAllowed := by decide
  areApart := by simp [LiteralPart.MayPrecede]

/-- The line separator stays in what is read, although the value is made of the letters alone. -/
theorem unquote_keepsLineEnd : separatedLetters.text = ("'a\\\u2028b'" : Text) ∧
    unquote separatedLetters.text = .ok "a\u2028b" ∧ separatedLetters.value = Text.codeUnits "ab" ∧
    Text.codeUnits "a\u2028b" ≠ separatedLetters.value := by
  refine ⟨rfl, ?_, by decide, by decide⟩
  change unescape [.scalar 'a', .scalar '\\', .scalar '\u2028', .scalar 'b'] = _
  rw [unescape_plain (by decide), unescape_letter (by decide) (by decide) (by decide), unescape_plain (by decide),
    unescape_nil]
  rfl

end Script
end ApiRoutes
