import ApiRoutes.Proofs.Script.Quoted
/-!
# Quoted texts as tokens

A quoted text is one string token, whatever follows it (`quote_isToken`): nothing in it ends a line, and a scan that
steps over the code point after each backslash comes to the closing quote at its very end.
-/
namespace ApiRoutes.Script

/-! ## The scan -/

/-- The place of the first quote that is not escaped: the scan steps over the code point after each backslash. -/
def closingQuote? (q : CodePoint) : Text → Option Nat
  | [] => none
  | .scalar '\\' :: _ :: r => (closingQuote? q r).map (· + 2)
  | c :: r => if c = q then some 0 else (closingQuote? q r).map (· + 1)

/-- The place of the quote that closes the string at the front of a text. -/
def stringEnd? : Text → Option Nat
  | [] => none
  | q :: r => (closingQuote? q r).map (· + 1)

/-- The code points that end a line in a script. -/
def lineTerminators : List CodePoint := ['\n', '\r', '\u2028', '\u2029']

/-- The scan passes a piece of a string, whatever comes after it. -/
def ScansPast (q : CodePoint) (x : Text) : Prop :=
  ∀ r, closingQuote? q (x ++ r) = (closingQuote? q r).map (· + x.length)

variable {q c : CodePoint}

theorem scansPast_nil : ScansPast q [] := fun r => by simp

theorem ScansPast.append {x y : Text} (hx : ScansPast q x) (hy : ScansPast q y) : ScansPast q (x ++ y) := by
  intro r
  rw [List.append_assoc, hx, hy, Option.map_map, List.length_append]
  congr 1
  funext n
  simp only [Function.comp_apply]
  omega

theorem scansPast_escape (c : CodePoint) : ScansPast q [.scalar '\\', c] := fun _ => rfl

theorem scansPast_plain (hb : c ≠ .scalar '\\') (hq : c ≠ q) : ScansPast q [c] := by
  intro r
  rw [List.singleton_append, closingQuote?, if_neg hq]
  · rfl
  · exact fun _ _ h _ => hb h

theorem scansPast_flatMap {f : CodePoint → Text} {t : Text} (h : ∀ c ∈ t, ScansPast q (f c)) :
    ScansPast q (t.flatMap f) := by
  induction t with
  | nil => exact scansPast_nil
  | cons c t ih =>
    rw [List.forall_mem_cons] at h
    rw [List.flatMap_cons]
    exact h.1.append (ih h.2)

theorem scansPast_of_forall {x : Text} (h : ∀ c ∈ x, c ≠ .scalar '\\' ∧ c ≠ q) : ScansPast q x := by
  have := scansPast_flatMap (f := fun c => [c]) fun c hc => scansPast_plain (h c hc).1 (h c hc).2
  rwa [List.flatMap_singleton'] at this

/-! ## What is written between the quotes -/

theorem ne_of_isHexDigit {d : CodePoint} (hc : Text.isHexDigit c = true) (hd : Text.isHexDigit d = false) : c ≠ d :=
  fun h => by rw [h, hd] at hc; cases hc

theorem scansPast_number {x : Text} (h : x.all Text.isHexDigit = true) :
    ScansPast (.scalar '\'') (.scalar '\\' :: .scalar 'u' :: x) :=
  (scansPast_escape _).append (scansPast_of_forall fun c hc =>
    ⟨ne_of_isHexDigit (List.all_eq_true.1 h c hc) rfl, ne_of_isHexDigit (List.all_eq_true.1 h c hc) rfl⟩)

/-- An escape of a control character is made of digits. -/
theorem quoteCodePoint_control {c : CodePoint} (hc : c.val < 0x20) :
    ∃ x : Text, ("\\u" : Text) ++ Text.hex 4 c.val = .scalar '\\' :: .scalar 'u' :: x ∧ x.all Text.isHexDigit = true := by
  obtain ⟨d, e, hde, hd, -⟩ := hex_control c.val hc
  exact ⟨_, rfl, hde ▸ hd⟩

theorem scansPast_quoteCodePoint (c : CodePoint) : ScansPast (.scalar '\'') (quoteCodePoint c) := by
  fun_cases quoteCodePoint c with
  | case10 => exact scansPast_number (x := "2028") (by decide)
  | case11 => exact scansPast_number (x := "2029") (by decide)
  | case12 c _ _ _ _ _ _ _ _ _ _ _ h =>
    obtain ⟨x, hx, hall⟩ := quoteCodePoint_control h
    rw [hx]
    exact scansPast_number hall
  | case13 c hb hq => exact scansPast_plain hb hq
  | _ => exact scansPast_escape _

theorem not_mem_lineTerminators_of_isHexDigit (h : Text.isHexDigit c = true) : c ∉ lineTerminators := by
  intro hc
  simp only [lineTerminators, List.mem_cons, List.not_mem_nil, or_false] at hc
  rcases hc with rfl | rfl | rfl | rfl <;> revert h <;> decide

theorem quoteCodePoint_oneLine (c : CodePoint) : ∀ d ∈ quoteCodePoint c, d ∉ lineTerminators := by
  fun_cases quoteCodePoint c with
  | case12 c _ _ _ _ _ _ _ _ _ _ _ h =>
    obtain ⟨x, hx, hall⟩ := quoteCodePoint_control h
    rw [hx]
    intro d hd
    rcases List.mem_cons.1 hd with rfl | hd
    · decide
    · rcases List.mem_cons.1 hd with rfl | hd
      · decide
      · exact not_mem_lineTerminators_of_isHexDigit (List.all_eq_true.1 hall d hd)
  | case13 c _ _ hn hr _ _ _ _ _ hls hps =>
    intro d hd
    rw [List.mem_singleton.1 hd]
    simp only [lineTerminators, List.mem_cons, List.not_mem_nil, or_false]
    rintro (h | h | h | h)
    · exact hn h
    · exact hr h
    · exact hls h
    · exact hps h
  | _ => decide

/-! ## The token -/

/-- **A quoted text is one string token that reads back**: it starts with the quote, no code point in it ends a line,
and whatever follows it the scan meets the closing quote at its last place. -/
theorem quote_isToken (t rest : Text) :
    unquote (quote t) = .ok t ∧ (quote t).head? = some (.scalar '\'') ∧ (∀ c ∈ quote t, c ∉ lineTerminators) ∧
      stringEnd? (quote t ++ rest) = some ((quote t).length - 1) := by
  have hquote : quote t = .scalar '\'' :: (t.flatMap quoteCodePoint ++ [.scalar '\'']) := rfl
  have hscan : ScansPast (.scalar '\'') (t.flatMap quoteCodePoint) :=
    scansPast_flatMap fun c _ => scansPast_quoteCodePoint c
  refine ⟨unquote_quote t, rfl, fun c hc => ?_, ?_⟩
  · rw [hquote, List.mem_cons, List.mem_append, List.mem_singleton] at hc
    rcases hc with rfl | hc | rfl
    · decide
    · obtain ⟨d, -, hc⟩ := List.mem_flatMap.1 hc
      exact quoteCodePoint_oneLine d c hc
    · decide
  · have hclose : closingQuote? (.scalar '\'') (.scalar '\'' :: rest) = some 0 := rfl
    rw [hquote, List.cons_append, stringEnd?, List.append_assoc, hscan, List.singleton_append, hclose]
    simp

end ApiRoutes.Script
