import ApiRoutes.Proofs.Script.Tokens
import ApiRoutes.Proofs.Text
/-!
# Quoted texts

What is written between apostrophes is one string literal (`stringLength?_quote`) and reads back as it
was (`unquote_quote`).
-/
namespace ApiRoutes.Script

/-! ## Escapes that are read -/

theorem unescape_backslash (r : Text) : unescape (.scalar '\\' :: r) =
    match numberEscape? r, r with
    | some (n, rest), _ => do
      let c ← codePointOf n
      let t ← unescape rest
      return c :: t
    | none, [] => .ok []
    | none, .scalar '\n' :: r => unescape r
    | none, c :: r => (unescape r).map (letterEscape c :: ·) := by
  rw [unescape.eq_def]
  split
  · rename_i heq; cases heq
  · rename_i heq
    cases heq
    split
    · rename_i h; simp only [h]
    · rename_i h; simp only [h]
    · rename_i h; simp only [h]
    · rename_i h; simp only [h]
  · rename_i hne heq; cases heq; exact absurd rfl hne

theorem unescape_plain {c : CodePoint} (h : c ≠ .scalar '\\') (r : Text) :
    unescape (c :: r) = (unescape r).map (c :: ·) := by
  rw [unescape.eq_def]
  split
  · rename_i heq; cases heq
  · rename_i heq; cases heq; exact absurd rfl h
  · rename_i heq; cases heq; rfl

theorem unescape_letter {c : Char} (hn : c ≠ '\n') (hu : c ≠ 'u') (hx : c ≠ 'x') (r : Text) :
    unescape (.scalar '\\' :: .scalar c :: r) = (unescape r).map (letterEscape c :: ·) := by
  have hnum : numberEscape? (.scalar c :: r) = none := by
    unfold numberEscape?
    split
    · rename_i heq; cases heq; exact absurd rfl hu
    · rename_i heq; cases heq; exact absurd rfl hu
    · rename_i heq; cases heq; exact absurd rfl hx
    · rfl
  rw [unescape_backslash, hnum]
  split
  · rename_i heq; cases heq
  · rename_i heq; cases heq
  · rename_i heq; cases heq; exact absurd rfl hn
  · rename_i heq; cases heq; rfl

theorem unescape_number {a b c d : CodePoint} (ha : a ≠ .scalar '\x7b')
    (h : [a, b, c, d].all Text.isHexDigit = true) {x : CodePoint}
    (hx : CodePoint.ofNat? (Text.hexValue [a, b, c, d]) = some x) (r : Text) :
    unescape (.scalar '\\' :: .scalar 'u' :: a :: b :: c :: d :: r) = (unescape r).map (x :: ·) := by
  have hnum : numberEscape? (.scalar 'u' :: a :: b :: c :: d :: r) =
      some (Text.hexValue [a, b, c, d], r) := by
    rw [numberEscape?, if_pos h]
    exact ha
  rw [unescape_backslash, hnum]
  simp only [codePointOf, hx]
  cases unescape r <;> rfl

/-! ## Control characters -/

/-- Are these the four digits of a control character, the first two of them zeros? -/
def areControlDigits (n : Nat) : List Char → Bool
  | ['0', '0', c, d] => (Text.ofChars ['0', '0', c, d]).all Text.isHexDigit &&
      Text.hexValue (Text.ofChars ['0', '0', c, d]) == n && Text.hex 4 n == Text.ofChars ['0', '0', c, d]
  | _ => false

theorem hex_control : ∀ n < 0x20, ∃ c d : Char, Text.hex 4 n = Text.ofChars ['0', '0', c, d] ∧
    (Text.ofChars ['0', '0', c, d]).all Text.isHexDigit = true ∧
    Text.hexValue (Text.ofChars ['0', '0', c, d]) = n := by
  have h : ∀ n < 0x20, ((Text.hex 4 n).toChars?.any (areControlDigits n)) = true := by decide
  intro n hn
  obtain ⟨cs, -, h⟩ := (Option.any_eq_true _ _).1 (h n hn)
  unfold areControlDigits at h
  split at h
  · rename_i c d
    rw [Bool.and_eq_true, Bool.and_eq_true, beq_iff_eq, beq_iff_eq] at h
    exact ⟨c, d, h.2, h.1.1, h.1.2⟩
  · cases h

/-! ## Reading back -/

theorem unescape_quoteCodePoint (c : CodePoint) (r : Text) :
    unescape (quoteCodePoint c ++ r) = (unescape r).map (c :: ·) := by
  fun_cases quoteCodePoint c with
  | case1 => exact unescape_letter (by decide) (by decide) (by decide) r
  | case2 => exact unescape_letter (by decide) (by decide) (by decide) r
  | case3 => exact unescape_letter (by decide) (by decide) (by decide) r
  | case4 => exact unescape_letter (by decide) (by decide) (by decide) r
  | case5 => exact unescape_letter (by decide) (by decide) (by decide) r
  | case6 => exact unescape_letter (by decide) (by decide) (by decide) r
  | case7 => exact unescape_letter (by decide) (by decide) (by decide) r
  | case8 => exact unescape_letter (by decide) (by decide) (by decide) r
  | case9 => exact unescape_letter (by decide) (by decide) (by decide) r
  | case10 => exact unescape_number (by decide) (by decide) (by decide) r
  | case11 => exact unescape_number (by decide) (by decide) (by decide) r
  | case12 c _ _ _ _ _ _ _ _ _ _ _ h =>
    obtain ⟨x, y, hxy, hd, hv⟩ := hex_control c.val h
    rw [List.append_assoc, hxy]
    exact unescape_number (by decide) hd (by rw [← CodePoint.ofNat?_val c, ← hv]; rfl) r
  | case13 => exact unescape_plain (by assumption) r

/-- **A quoted text reads back.** -/
theorem unquote_quote (t : Text) : unquote (quote t) = .ok t := by
  have h : unescape (t.flatMap quoteCodePoint) = .ok t := by
    induction t with
    | nil => rw [List.flatMap_nil, unescape.eq_def]
    | cons c t ih =>
      rw [List.flatMap_cons, unescape_quoteCodePoint, ih]
      rfl
  rw [unquote, quote, List.append_assoc]
  change unescape (t.flatMap quoteCodePoint ++ Text.ofString "'").dropLast = .ok t
  rw [show Text.ofString "'" = [.scalar '\''] from rfl, List.dropLast_concat, h]

/-! ## One literal -/

section

variable {q : Char} {cs : List Char} {n : Nat}

/-- The rest of a string is read to its end with any fuel that is enough. -/
def StringEnds (q : Char) (cs : List Char) (n : Nat) : Prop :=
  ∀ fuel, cs.length ≤ fuel → stringRun q fuel cs = some n

theorem StringEnds.plain {c : Char} (hq : (c == q) = false) (hb : (c == '\n' || c == '\r') = false)
    (he : (c == '\\') = false) (h : StringEnds q cs n) : StringEnds q (c :: cs) (n + 1) := by
  intro fuel hf
  cases fuel with
  | zero => cases hf
  | succ fuel =>
    rw [stringRun, hq, hb, he, h fuel (Nat.le_of_succ_le_succ hf)]
    rfl

theorem StringEnds.of_plain {c : Char} (hq : (c == q) = false) (hb : (c == '\n' || c == '\r') = false)
    (he : (c == '\\') = false) (h : StringEnds q (c :: cs) n) : ∃ m, n = m + 1 ∧ StringEnds q cs m := by
  have hstep (fuel : Nat) (hf : cs.length ≤ fuel) : (stringRun q fuel cs).map (· + 1) = some n := by
    rw [← h (fuel + 1) (Nat.succ_le_succ hf), stringRun, hq, hb, he]
    rfl
  obtain ⟨m, -, rfl⟩ := Option.map_eq_some_iff.1 (hstep _ (Nat.le_refl _))
  refine ⟨m, rfl, fun fuel hf => ?_⟩
  obtain ⟨m', hm', heq⟩ := Option.map_eq_some_iff.1 (hstep fuel hf)
  rw [hm', Nat.succ.inj heq]

theorem StringEnds.escape (hq : ('\\' == q) = false) {m : Nat} (hm : escapeLength? cs = some m)
    (h : StringEnds q (cs.drop m) n) : StringEnds q ('\\' :: cs) (n + m + 1) := by
  intro fuel hf
  cases fuel with
  | zero => cases hf
  | succ fuel =>
    rw [stringRun, hq, hm]
    have := h fuel (by rw [List.length_cons] at hf; rw [List.length_drop]; omega)
    simp only [this]
    rfl

end

def isOctal (c : Char) : Bool := '0' ≤ c && c ≤ '7'

theorem StringEnds.of_octals {ds cs : List Char} (hds : ds.all isOctal = true) :
    ∀ {n : Nat}, StringEnds '\'' (ds ++ cs) n → ∃ m, n = m + ds.length ∧ StringEnds '\'' cs m := by
  induction ds with
  | nil => intro n h; exact ⟨n, rfl, h⟩
  | cons d ds ih =>
    intro n h
    rw [List.all_cons, Bool.and_eq_true] at hds
    have hne (c : Char) (hc : isOctal c = false) : (d == c) = false :=
      beq_eq_false_iff_ne.2 fun e => by rw [← e, hds.1] at hc; cases hc
    obtain ⟨m, rfl, hm⟩ := StringEnds.of_plain (hne _ (by decide))
      (by rw [hne '\n' (by decide), hne '\r' (by decide)]; rfl) (hne _ (by decide)) h
    obtain ⟨k, rfl, hk⟩ := ih hds.2 hm
    exact ⟨k, by rw [List.length_cons]; omega, hk⟩

/-- An escaped zero takes up to two octal digits after it along. -/
theorem StringEnds.zero {cs : List Char} {n : Nat} (h : StringEnds '\'' cs n) :
    StringEnds '\'' ('\\' :: '0' :: cs) (n + 2) := by
  have hcs : cs = (cs.take 2).takeWhile isOctal ++ ((cs.take 2).dropWhile isOctal ++ cs.drop 2) := by
    rw [← List.append_assoc, List.takeWhile_append_dropWhile, List.take_append_drop]
  have hlen : escapeLength? ('0' :: cs) = some (((cs.take 2).takeWhile isOctal).length + 1) := rfl
  have hds : ((cs.take 2).takeWhile isOctal).all isOctal = true := List.all_takeWhile
  generalize (cs.take 2).takeWhile isOctal = ds at hcs hlen hds
  rw [hcs] at h hlen ⊢
  obtain ⟨m, rfl, hm⟩ := h.of_octals hds
  have := StringEnds.escape (q := '\'') (n := m) rfl hlen (by rw [List.drop_succ_cons, List.drop_left]; exact hm)
  rwa [show m + (ds.length + 1) + 1 = m + ds.length + 2 by omega] at this

theorem StringEnds.quoted {c : CodePoint} {x cs : List Char} {n : Nat}
    (hx : Text.ofChars x = quoteCodePoint c) (h : StringEnds '\'' cs n) :
    StringEnds '\'' (x ++ cs) (n + x.length) := by
  have letter {e : Char} (he : ∀ cs, escapeLength? (e :: cs) = some 1) (hx : x = ['\\', e]) :
      StringEnds '\'' (x ++ cs) (n + x.length) := by
    subst hx
    exact .escape rfl (he cs) h
  have number {a b c d : Char} (ha : a ≠ '\x7b') (hd : [a, b, c, d].all isHex = true)
      (hx : x = ['\\', 'u', a, b, c, d]) : StringEnds '\'' (x ++ cs) (n + x.length) := by
    subst hx
    refine .escape (m := 5) rfl ?_ h
    change (wordEscapeLength? ('\\' :: 'u' :: a :: b :: c :: d :: cs)).map (· - 1) = some 5
    rw [wordEscapeLength?, if_pos hd]
    · rfl
    · exact ha
  have literal (ds : List Char) (hds : quoteCodePoint c = Text.ofChars ds) : x = ds :=
    Text.ofChars_inj (hx.trans hds)
  by_cases h0 : c = .scalar '\x00'
  · subst h0
    rw [literal ['\\', '0'] rfl]
    exact h.zero
  fun_cases quoteCodePoint c with
  | case1 => exact letter (e := '\\') (fun _ => rfl) (literal _ rfl)
  | case2 => exact letter (e := '\'') (fun _ => rfl) (literal _ rfl)
  | case3 => exact letter (e := 'n') (fun _ => rfl) (literal _ rfl)
  | case4 => exact letter (e := 'r') (fun _ => rfl) (literal _ rfl)
  | case5 => exact letter (e := 't') (fun _ => rfl) (literal _ rfl)
  | case6 => exact letter (e := 'b') (fun _ => rfl) (literal _ rfl)
  | case7 => exact letter (e := 'f') (fun _ => rfl) (literal _ rfl)
  | case8 => exact letter (e := 'v') (fun _ => rfl) (literal _ rfl)
  | case9 => exact absurd rfl h0
  | case10 => exact number (by decide) (by decide) (literal "\\u2028".toList rfl)
  | case11 => exact number (by decide) (by decide) (literal "\\u2029".toList rfl)
  | case12 c _ _ _ _ _ _ _ _ _ _ _ hc =>
    obtain ⟨d, e, hde, hd, -⟩ := hex_control c.val hc
    refine number (by decide) hd (literal _ ?_)
    rw [quoteCodePoint, if_pos hc, hde] <;> first | rfl | assumption
  | case13 c hb hq hn hr _ _ _ _ _ _ _ hc =>
    have hx' : Text.ofChars x = [c] := by
      rw [hx, quoteCodePoint, if_neg hc] <;> assumption
    obtain ⟨ch, hch, hxc⟩ := List.map_eq_singleton_iff.1 hx'
    subst hch
    have hne {d : Char} (h : c = .scalar d → False) : (ch == d) = false :=
      beq_eq_false_iff_ne.2 fun e => h (by rw [← hxc, e])
    exact h.plain (hne hq) (by rw [hne hn, hne hr]; rfl) (hne hb)

theorem stringEnds_quoted {t : Text} : ∀ {ds : List Char}, t.flatMap quoteCodePoint = Text.ofChars ds →
    StringEnds '\'' (ds ++ ['\'']) (ds.length + 1) := by
  induction t with
  | nil =>
    intro ds h
    rw [(Text.ofChars_inj h.symm : ds = [])]
    intro fuel hf
    cases fuel with
    | zero => cases hf
    | succ fuel => rfl
  | cons c t ih =>
    intro ds h
    obtain ⟨x, y, rfl, hx, hy⟩ := Text.ofChars_of_append h
    have := StringEnds.quoted hx.symm (ih hy)
    rw [List.append_assoc, List.length_append]
    rwa [show x.length + y.length + 1 = y.length + 1 + x.length by omega]

/-- **A quoted text is one string literal.** -/
theorem stringLength?_quote {t : Text} {cs : List Char} (h : quote t = Text.ofChars cs) :
    stringLength? cs = some cs.length := by
  obtain ⟨x, rfl, hx⟩ := Text.ofChars_of_append_chars ['\''] h
  obtain ⟨y, rfl, hy⟩ := Text.ofChars_of_chars_append ['\''] hx
  have hend := stringEnds_quoted hy (y.length + 2) (by rw [List.length_append]; exact Nat.le_succ _)
  have hfuel : (y ++ ['\'']).length + 1 = y.length + 2 := by rw [List.length_append]; rfl
  rw [List.append_assoc, List.singleton_append, stringLength?, hfuel, hend, List.length_cons, hfuel]
  rfl

end ApiRoutes.Script
