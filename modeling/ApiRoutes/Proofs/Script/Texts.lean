import ApiRoutes.Proofs.Outcomes
import ApiRoutes.Proofs.Script.Numerals
import ApiRoutes.Proofs.Script.Operands
/-!
# Texts of expressions

What the text of an expression is made of, and the token that it begins with (`begins_of_plain`).
-/
namespace ApiRoutes.Script

variable {L : Nat} {l : Layout} {t : Text} {cs : List Char}

/-! ## Parts -/

theorem memberChars_ok {o : Node} {x : Text} {computed : Bool}
    (h : expressionText L ⟨l, .member o x computed⟩ = .ok (Text.ofChars cs)) :
    ∃ os, expressionText L o = .ok (Text.ofChars os) ∧
      ((computed = true ∧ ∃ is, quote x = Text.ofChars is ∧ cs = os ++ ('[' :: is ++ [']'])) ∨
        computed = false ∧ ∃ ps, x = Text.ofChars ps ∧ cs = os ++ '.' :: ps) := by
  rw [expressionText] at h
  obtain ⟨s, hs, h⟩ := bind_eq_ok.1 h
  cases computed with
  | true =>
    have h : (s ++ "[" ++ quote x ++ "]" : Text) = Text.ofChars cs := Except.ok.inj h
    obtain ⟨y, rfl, hy⟩ := Text.ofChars_of_append_chars [']'] h
    obtain ⟨z, is, rfl, hz, his⟩ := Text.ofChars_of_append hy
    obtain ⟨os, rfl, rfl⟩ := Text.ofChars_of_append_chars ['['] hz
    exact ⟨os, hs, .inl ⟨rfl, is, his, by simp⟩⟩
  | false =>
    have h : (s ++ "." ++ x : Text) = Text.ofChars cs := Except.ok.inj h
    obtain ⟨y, ps, rfl, hy, rfl⟩ := Text.ofChars_of_append h
    obtain ⟨os, rfl, rfl⟩ := Text.ofChars_of_append_chars ['.'] hy
    exact ⟨os, hs, .inr ⟨rfl, ps, rfl, by simp⟩⟩

theorem expressionTexts_ok : ∀ {as : List Node} {xs : List (List Char)},
    expressionTexts L as = .ok (xs.map Text.ofChars) →
    List.Forall₂ (fun n x => expressionText L n = .ok (Text.ofChars x)) as xs
  | [], xs, h => by
    have : [] = xs.map Text.ofChars := Except.ok.inj h
    rw [List.map_eq_nil_iff.1 this.symm]
    exact .nil
  | n :: as, xs, h => by
    rw [expressionTexts] at h
    obtain ⟨t, ht, h⟩ := bind_eq_ok.1 h
    obtain ⟨ts, hts, h⟩ := bind_eq_ok.1 h
    have h : t :: ts = xs.map Text.ofChars := Except.ok.inj h
    obtain ⟨x, xs, rfl, rfl, rfl⟩ := List.map_eq_cons_iff.1 h.symm
    exact .cons ht (expressionTexts_ok hts)

theorem callChars_ok {f : Node} {as : List Node}
    (h : expressionText L ⟨l, .call f as⟩ = .ok (Text.ofChars cs)) :
    ∃ fs xs, expressionText L f = .ok (Text.ofChars fs) ∧
      List.Forall₂ (fun n x => expressionText L n = .ok (Text.ofChars x)) as xs ∧
      cs = fs ++ ('(' :: (joinChars xs ++ [')'])) := by
  rw [expressionText] at h
  obtain ⟨ts, hts, h⟩ := bind_eq_ok.1 h
  obtain ⟨s, hs, h⟩ := bind_eq_ok.1 h
  have h : (s ++ "(" ++ Text.joinWith ", " ts ++ ")" : Text) = Text.ofChars cs := Except.ok.inj h
  obtain ⟨y, rfl, hy⟩ := Text.ofChars_of_append_chars [')'] h
  obtain ⟨z, w, rfl, hz, hw⟩ := Text.ofChars_of_append hy
  obtain ⟨fs, rfl, rfl⟩ := Text.ofChars_of_append_chars ['('] hz
  obtain ⟨xs, rfl, rfl⟩ := joinChars_of_joinWith hw
  exact ⟨fs, xs, hs, expressionTexts_ok hts, by simp⟩

theorem assignmentChars_ok {a v : Node} (h : expressionText L ⟨l, .assignment a v⟩ = .ok (Text.ofChars cs)) :
    ∃ xs vs, expressionText L a = .ok (Text.ofChars xs) ∧ expressionText L v = .ok (Text.ofChars vs) ∧
      cs = xs ++ (' ' :: '=' :: ' ' :: vs) := by
  rw [expressionText] at h
  obtain ⟨s, hs, h⟩ := bind_eq_ok.1 h
  obtain ⟨u, hu, h⟩ := bind_eq_ok.1 h
  have h : (s ++ " = " ++ u : Text) = Text.ofChars cs := Except.ok.inj h
  obtain ⟨y, vs, rfl, hy, rfl⟩ := Text.ofChars_of_append h
  obtain ⟨xs, rfl, rfl⟩ := Text.ofChars_of_append_chars [' ', '=', ' '] hy
  exact ⟨xs, vs, hs, hu, by simp⟩

/-! ## Requests -/

theorem accessText_eq {a : Access} {e : Node} (h : a.expression? = some e) :
    expressionText L ⟨l, .access a⟩ = expressionText L e := by
  change a.render = _
  rw [Access.expression?] at h
  rw [Access.render]
  cases hc : collectionOf? a.location with
  | some collection =>
    rw [hc] at h
    cases h
    change Except.ok (memberText _ _) = _
    rw [memberText]
    cases isIdentifier a.name <;> rfl
  | none =>
    rw [hc] at h
    change (if a.location = "header" then _ else _) = _ at h
    change (if a.location = "header" then _ else _) = _
    by_cases hh : a.location = "header"
    · rw [if_pos hh] at h ⊢
      cases h
      change Except.ok (a.request ++ ".get(" ++ quote a.name ++ ")" : Text) =
        Except.ok (a.request ++ "." ++ "get" ++ "(" ++ quote a.name ++ ")" : Text)
      simp only [List.append_assoc]
      rfl
    · rw [if_neg hh] at h ⊢
      by_cases hb : a.location = "body"
      · rw [if_pos hb] at h ⊢
        cases h
        change Except.ok (a.request ++ ".body" : Text) = Except.ok (a.request ++ "." ++ "body" : Text)
        rw [List.append_assoc]
        rfl
      · rw [if_neg hb] at h
        cases h

theorem accessText_ok {a : Access} (h : expressionText L ⟨l, .access a⟩ = .ok t) :
    ∃ e, a.expression? = some e ∧ expressionText L e = .ok t := by
  suffices he : ∃ e, a.expression? = some e by
    obtain ⟨e, he⟩ := he
    exact ⟨e, he, accessText_eq he ▸ h⟩
  change a.render = .ok t at h
  rw [Access.render] at h
  rw [Access.expression?]
  cases hc : collectionOf? a.location with
  | some => exact ⟨_, rfl⟩
  | none =>
    rw [hc] at h
    by_cases hh : a.location = "header"
    · exact ⟨_, if_pos hh⟩
    · by_cases hb : a.location = "body"
      · exact ⟨_, (if_neg hh).trans (if_pos hb)⟩
      · cases ((if_neg hh).trans (if_neg hb)).symm.trans h

/-! ## Scalars -/

theorem literalText_eq {v : Value} {raw : Option Text} :
    expressionText L ⟨l, .literal v raw⟩ = literalText v raw := by
  cases raw <;> rfl

/-- The tokens that plain literals are written as. -/
inductive LiteralToken : Value → List Char → Prop
  | null : LiteralToken .null "null".toList
  | truth (b : Bool) : LiteralToken (.bool b) (if b then "true" else "false").toList
  | number {v : Value} {cs : List Char} (hv : isNumber v = true) (h : IsNumberText cs) : LiteralToken v cs
  | text {t : Text} {cs : List Char} (hlen : stringLength? cs = some cs.length)
    (hval : unquote (Text.ofChars cs) = .ok t) : LiteralToken (.text t) cs

theorem literalToken_of_plain {v : Value} {raw : Option Text} (h : isPlainLiteral v raw = true)
    (ht : literalText v raw = .ok (Text.ofChars cs)) : LiteralToken v cs := by
  have hnumber {raw : Option Text} (hv : isNumber v = true)
      (h : ((raw.all fun t => t.toChars?.any isNumeral) && (literalText v raw).toOption.any isNumberSpelling) = true)
      (ht : literalText v raw = .ok (Text.ofChars cs)) : LiteralToken v cs := by
    have h := (Bool.and_eq_true_iff.1 h).1
    cases raw with
    | none =>
      obtain ⟨ds, hds, hn⟩ := spellValue_number hv ht
      rw [Text.ofChars_inj hds]
      exact .number hv hn
    | some t =>
      cases ht
      rw [Option.all_some, Text.toChars?_ofChars] at h
      exact .number hv (.numeral h)
  cases v with
  | null =>
    have hcs : Text.ofString "null" = Text.ofChars cs := by
      cases raw with
      | none => exact Except.ok.inj ht
      | some t =>
        cases ht
        exact (beq_iff_eq.1 h).symm
    rw [← (Text.ofChars_inj hcs : "null".toList = cs)]
    exact .null
  | bool b =>
    have hcs : Text.ofString (if b then "true" else "false") = Text.ofChars cs := by
      cases raw with
      | none => cases b <;> exact Except.ok.inj ht
      | some t =>
        cases ht
        cases b <;> exact (beq_iff_eq.1 h).symm
    rw [← (Text.ofChars_inj hcs : (if b then "true" else "false").toList = cs)]
    exact .truth b
  | int => exact hnumber rfl h ht
  | float => exact hnumber rfl h ht
  | text t =>
    cases raw with
    | none =>
      have hq : quote t = Text.ofChars cs := Except.ok.inj ht
      exact .text (stringLength?_quote hq) (hq ▸ unquote_quote t)
    | some s =>
      cases ht
      rw [isPlainLiteral, Text.toChars?_ofChars, Option.any_some, Bool.and_eq_true, beq_iff_eq, beq_iff_eq] at h
      refine .text h.1 ?_
      cases hu : unquote (Text.ofChars cs) with
      | error e =>
        rw [hu] at h
        cases h.2
      | ok v =>
        rw [hu] at h
        cases h.2
        rfl
  | _ => cases h

/-! ## Lines -/

/-- Lines, each with its end. -/
def linesText (ls : List Text) : Text := ls.flatMap fun l => l ++ "\n"

theorem linesText_append (ls ms : List Text) : linesText (ls ++ ms) = linesText ls ++ linesText ms :=
  List.flatMap_append

theorem joinWith_lines (t : Text) : ∀ ls : List Text, Text.joinWith "\n" (ls ++ [t]) = linesText ls ++ t
  | [] => rfl
  | [l] => by
    rw [linesText, List.flatMap_singleton]
    rfl
  | l :: m :: ls => by
    rw [List.cons_append, List.cons_append, Text.joinWith, ← List.cons_append, joinWith_lines t (m :: ls),
      ← List.append_assoc]
    rfl

theorem joinWith_end {ls : List Text} (h : ls ≠ []) : Text.joinWith "\n" ls ++ "\n" = linesText ls := by
  obtain ⟨ms, t, rfl⟩ := (List.eq_nil_or_concat ls).resolve_left h
  rw [List.concat_eq_append, joinWith_lines, linesText_append, List.append_assoc, linesText, linesText,
    List.flatMap_singleton]

theorem onManyLines_eq (opening closing : Text) (bs : List (List Text)) :
    onManyLines opening closing L bs = opening ++ "\n" ++ linesText bs.flatten ++ (indentation L ++ closing) := by
  rw [onManyLines, ← List.cons_append, joinWith_lines]
  rfl

/-! ## Literals -/

/-- The text of a literal with entries, from their texts on one line and from their lines. -/
def literalForm (opening closing pad : Text) (level : Nat) (fits : Bool) (texts : Outcome (List Text))
    (blocks : Outcome (List (List Text))) : Outcome Text := do
  let oneLine ← if fits then pure (onOneLine opening closing pad (← texts)) else pure none
  match oneLine with
  | some text => return text
  | none => return onManyLines opening closing level (← blocks)

theorem objectText_eq {ps : List Node} {inline : Bool} (hps : ps ≠ []) :
    expressionText L ⟨l, .object ps inline⟩ = literalForm "\x7b" "\x7d" " " L
      (inline && !ps.any needsOwnLine) (entryTexts L ps) (entryBlocks L ps) := by
  cases ps with
  | nil => exact absurd rfl hps
  | cons => rfl

theorem arrayText_eq {es : List Node} {inline : Bool} (hes : es ≠ []) :
    expressionText L ⟨l, .array es inline⟩ = literalForm "[" "]" [] L
      (inline && !es.any needsOwnLine) (expressionTexts L es) (elementBlocks L es) := by
  cases es with
  | nil => exact absurd rfl hes
  | cons => rfl

section

variable {opening closing pad : Text} {fits : Bool} {texts : Outcome (List Text)}
  {blocks : Outcome (List (List Text))} {ts : List Text} {bs : List (List Text)}

/-- No text of a list has a line end. -/
def NoLineEnd (ts : List Text) : Prop := ts.any (fun p => p.any (· == '\n')) = false

theorem literalForm_oneLine (hts : NoLineEnd ts) : literalForm opening closing pad L true (.ok ts) blocks =
    .ok (opening ++ pad ++ Text.joinWith ", " ts ++ pad ++ closing) := by
  change (match onOneLine opening closing pad ts with
    | some text => Except.ok text
    | none => _) = _
  rw [onOneLine, hts]
  rfl

theorem literalForm_manyLines : literalForm opening closing pad L false texts (.ok bs) =
    .ok (onManyLines opening closing L bs) := rfl

/-- **A literal stands on one line**, or has a line for each entry. -/
theorem literalForm_ok (h : literalForm opening closing pad L fits texts blocks = .ok t) :
    (∃ ts, fits = true ∧ texts = .ok ts ∧ NoLineEnd ts ∧
      t = opening ++ pad ++ Text.joinWith ", " ts ++ pad ++ closing) ∨
    ∃ bs, blocks = .ok bs ∧ t = onManyLines opening closing L bs := by
  have hmany (h : (do return onManyLines opening closing L (← blocks)) = .ok t) :
      ∃ bs, blocks = .ok bs ∧ t = onManyLines opening closing L bs := by
    obtain ⟨bs, hbs, h⟩ := bind_eq_ok.1 h
    exact ⟨bs, hbs, (Except.ok.inj h).symm⟩
  cases fits with
  | false => exact .inr (hmany h)
  | true =>
    obtain ⟨ts, rfl, h⟩ := bind_eq_ok.1 h
    by_cases hts : NoLineEnd ts
    · left
      have := @literalForm_oneLine L opening closing pad blocks ts hts
      exact ⟨ts, rfl, rfl, hts, Except.ok.inj (h.symm.trans this)⟩
    · right
      rw [NoLineEnd, Bool.not_eq_false] at hts
      refine hmany ?_
      change (match onOneLine opening closing pad ts with
        | some text => Except.ok text
        | none => _) = _ at h
      rw [onOneLine, hts] at h
      exact h

end

/-! ## Kept source text -/

theorem isNegative_chars (h : isNegative t = true) : ∃ cs, t = Text.ofChars cs ∧ '\n' ∉ cs := by
  rw [isNegative, Option.any_eq_true] at h
  obtain ⟨cs, hcs, h⟩ := h
  refine ⟨cs, Text.eq_ofChars hcs, ?_⟩
  split at h
  · rename_i ds
    rw [List.mem_cons, not_or]
    refine ⟨by decide, ?_⟩
    rw [Bool.or_eq_true, beq_iff_eq] at h
    rcases h with h | rfl
    · exact isNumeral_oneLine h
    · decide
  · cases h

theorem lines_oneLine (h : '\n' ∉ cs) : Text.lines (Text.ofChars cs) = [Text.ofChars cs] := by
  refine Text.pieces_of_not_any fun c hc => ?_
  obtain ⟨ch, hch, rfl⟩ := List.mem_map.1 hc
  exact beq_eq_false_iff_ne.2 fun e => h (CodePoint.scalar.inj e ▸ hch)

theorem renderRaw_oneLine {i : Option Nat} (h : '\n' ∉ cs) : renderRaw (Text.ofChars cs) i L = Text.ofChars cs := by
  cases i with
  | none => rfl
  | some i =>
    rw [renderRaw, shiftLines, lines_oneLine h]
    split <;> rfl

theorem renderRaw_negative {i : Option Nat} (h : isNegative t = true) : renderRaw t i L = t := by
  obtain ⟨cs, rfl, hcs⟩ := isNegative_chars h
  exact renderRaw_oneLine hcs

/-! ## First tokens -/

theorem isDigit_mem {ch : Char} (h : ch.isDigit = true) : ch ∈ "0123456789".toList := by
  rw [Char.isDigit, Bool.and_eq_true, decide_eq_true_iff, decide_eq_true_iff] at h
  have h₁ : 48 ≤ ch.toNat := h.1
  have h₂ : ch.toNat ≤ 57 := h.2
  have hof : ch = Char.ofNat ch.toNat := (Char.ofNat_toNat ch).symm
  generalize ch.toNat = n at *
  subst hof
  have hall : ∀ n < 58, 48 ≤ n → Char.ofNat n ∈ "0123456789".toList := by decide
  exact hall n (by omega) h₁

theorem Begins.append (h : Begins cs) (ds : List Char) : Begins (cs ++ ds) := fun r => by
  rw [List.append_assoc]
  exact h _

theorem begins_cons {ch : Char} (h : isTokenStart ch = true) (hs : ch ∉ signHeads) (cs : List Char) :
    Begins (ch :: cs) := fun r =>
  ⟨startsToken_cons h _, by rw [List.cons_append, signAt_eq_empty hs]; exact List.mem_cons_self⟩

theorem begins_word (h : isWord cs = true) : Begins cs := fun r =>
  ⟨startsToken_word h r, by
    obtain ⟨ch, ds, rfl, hch, -⟩ := isWord_iff.1 h
    rw [List.cons_append, signAt_eq_empty (not_mem_signHeads hch)]
    exact List.mem_cons_self⟩

theorem begins_string {n : Nat} (h : stringLength? cs = some n) : Begins cs := by
  obtain ⟨ch, ds, rfl, hq⟩ := quote_of_stringLength? h
  rcases hq with rfl | rfl <;> exact begins_cons rfl (by decide) ds

theorem begins_numeral (h : isNumeral cs = true) : Begins cs := by
  rw [isNumeral, Bool.and_eq_true] at h
  cases cs with
  | nil => cases h.1
  | cons ch ds =>
    have hall : "0123456789".toList.all (fun ch => isTokenStart ch && !signHeads.contains ch) = true := by decide
    have := List.all_eq_true.1 hall ch (isDigit_mem h.1)
    rw [Bool.and_eq_true, Bool.not_eq_true', List.contains_eq_mem, decide_eq_false_iff_not] at this
    exact begins_cons this.1 this.2 ds

theorem signAt_minus {ch : Char} {r : List Char} (h : ch ≠ '-') (h' : ch ≠ '=') : signAt ('-' :: ch :: r) = "-" := by
  have hm : ('-' == ch) = false := beq_eq_false_iff_ne.2 h.symm
  have he : ('=' == ch) = false := beq_eq_false_iff_ne.2 h'.symm
  simp [signAt, signs, List.isPrefixOf, hm, he]

theorem begins_negative (h : isNegative (Text.ofChars cs) = true) : Begins cs := by
  rw [isNegative, Text.toChars?_ofChars, Option.any_some] at h
  split at h
  · rename_i ds
    intro r
    have hhead : ∃ ch es, ds = ch :: es ∧ (ch ∈ "0123456789".toList ∨ ch = 'I') := by
      rw [Bool.or_eq_true, isNumeral, Bool.and_eq_true] at h
      rcases h with h | h
      · cases ds with
        | nil => cases h.1
        | cons ch es => exact ⟨ch, es, rfl, .inl (isDigit_mem h.1)⟩
      · rw [beq_iff_eq] at h
        exact ⟨'I', _, h, .inr rfl⟩
    obtain ⟨ch, es, rfl, hch⟩ := hhead
    have hne {d : Char} (hd : d ∉ 'I' :: "0123456789".toList) : ch ≠ d := fun e =>
      hd (List.mem_cons.2 (hch.symm.imp (fun h => e ▸ h) fun h => e ▸ h))
    refine ⟨⟨rfl, rfl, ?_⟩, ?_⟩
    · have hm : ('-' == ch) = false := beq_eq_false_iff_ne.2 (hne (by decide)).symm
      rw [markupCommentLength?, show "<!--".toList.isPrefixOf ('-' :: ch :: es ++ r) = false from rfl,
        show "-->".toList.isPrefixOf ('-' :: ch :: es ++ r) = ('-' == ch && ['>'].isPrefixOf (es ++ r)) from rfl, hm]
      rfl
    · rw [List.cons_append, List.cons_append, signAt_minus (hne (by decide)) (hne (by decide))]
      decide
  · cases h

theorem LiteralToken.begins {v : Value} (h : LiteralToken v cs) : Begins cs := by
  cases h with
  | null => exact begins_word (by decide)
  | truth b => cases b <;> exact begins_word (by decide)
  | number _ h =>
    cases h with
    | numeral h => exact begins_numeral h
    | negative h => exact begins_negative h
    | word h => rcases h with rfl | rfl <;> exact begins_word (by decide)
  | text h => exact begins_string h

theorem collection_head {a : Access} {collection : String} (h : collectionOf? a.location = some collection) :
    ∃ ch ds, collection.toList = ch :: ds ∧ ch ≠ '.' := by
  obtain ⟨p, hp, rfl⟩ := Option.map_eq_some_iff.1 h
  have hall : (requestCollections.all fun p => p.2.toList.head?.any (· != '.')) = true := by decide
  have := List.all_eq_true.1 hall p (List.mem_of_find?_eq_some hp)
  cases hl : p.2.toList with
  | nil => rw [hl] at this; cases this
  | cons ch ds => rw [hl] at this; exact ⟨ch, ds, rfl, bne_iff_ne.1 this⟩

theorem access_begins {a : Access} (h : a.render = .ok t) :
    ∃ (ch : Char) (s : Text), ch ≠ '.' ∧ t = a.request ++ (CodePoint.scalar '.' :: CodePoint.scalar ch :: s) := by
  rw [Access.render] at h
  split at h
  · rename_i collection hc
    obtain ⟨ch, ds, hds, hne⟩ := collection_head hc
    obtain rfl := Except.ok.inj h
    refine ⟨ch, Text.ofChars ds ++ (if isIdentifier a.name then "." ++ a.name else "[" ++ quote a.name ++ "]"), hne, ?_⟩
    have hcoll : Text.ofString collection = CodePoint.scalar ch :: Text.ofChars ds := by rw [Text.ofString, hds]; rfl
    rw [memberText, hcoll]
    split <;> simp only [List.append_assoc] <;> rfl
  · split at h
    · obtain rfl := Except.ok.inj h
      simp only [List.append_assoc]
      exact ⟨'g', _, by decide, rfl⟩
    · split at h
      · obtain rfl := Except.ok.inj h
        exact ⟨'b', _, by decide, rfl⟩
      · cases h

theorem literalForm_begins {opening closing pad : Text} {fits : Bool} {texts : Outcome (List Text)}
    {blocks : Outcome (List (List Text))} (h : literalForm opening closing pad L fits texts blocks = .ok t) :
    ∃ s, t = opening ++ s := by
  rcases literalForm_ok h with ⟨ts, -, -, -, rfl⟩ | ⟨bs, -, rfl⟩
  · simp only [List.append_assoc]
    exact ⟨_, rfl⟩
  · rw [onManyLines_eq]
    simp only [List.append_assoc]
    exact ⟨_, rfl⟩

theorem objectText_begins {ps : List Node} {inline : Bool} (h : expressionText L ⟨l, .object ps inline⟩ = .ok t) :
    ∃ s, t = "\x7b" ++ s := by
  cases ps with
  | nil => exact ⟨"\x7d", (Except.ok.inj h).symm⟩
  | cons => exact literalForm_begins h

theorem arrayText_begins {es : List Node} {inline : Bool} (h : expressionText L ⟨l, .array es inline⟩ = .ok t) :
    ∃ s, t = "[" ++ s := by
  cases es with
  | nil => exact ⟨"]", (Except.ok.inj h).symm⟩
  | cons => exact literalForm_begins h

theorem begins_opening {ch : Char} (h : isTokenStart ch = true) (hs : ∀ r, signAt (ch :: r) = String.singleton ch)
    (hch : ch = '[' ∨ ch = '\x7b') (cs : List Char) : Begins (ch :: cs) := fun r =>
  ⟨startsToken_cons h _, by rw [List.cons_append, hs]; rcases hch with rfl | rfl <;> decide⟩

theorem begins_of_plain : ∀ {n : Node} {cs : List Char}, plainExpression n = true →
    expressionText L n = .ok (Text.ofChars cs) → Begins cs
  | ⟨_, .identifier x⟩, cs, h, ht => by
    rw [expressionText] at ht
    obtain rfl := Except.ok.inj ht
    exact begins_word (isPlainName_ofChars h).1
  | ⟨_, .literal v raw⟩, cs, h, ht => (literalToken_of_plain h (literalText_eq.symm.trans ht)).begins
  | ⟨_, .raw s i⟩, cs, h, ht => by
    rw [expressionText, renderRaw_negative h] at ht
    obtain rfl := Except.ok.inj ht
    exact begins_negative h
  | ⟨_, .member o x computed⟩, cs, h, ht => by
    obtain ⟨os, hos, hcs⟩ := memberChars_ok ht
    rw [plainExpression] at h
    simp only [Bool.and_eq_true] at h
    have ho := begins_of_plain h.1.2 hos
    rcases hcs with ⟨-, is, -, rfl⟩ | ⟨-, ps, -, rfl⟩ <;> exact ho.append _
  | ⟨_, .call f as⟩, cs, h, ht => by
    obtain ⟨fs, xs, hfs, -, rfl⟩ := callChars_ok ht
    rw [plainExpression] at h
    simp only [Bool.and_eq_true] at h
    exact (begins_of_plain h.1.2 hfs).append _
  | ⟨_, .assignment a v⟩, cs, h, ht => by
    obtain ⟨xs, vs, hxs, -, rfl⟩ := assignmentChars_ok ht
    rw [plainExpression] at h
    simp only [Bool.and_eq_true] at h
    exact (begins_of_plain h.1.1.2 hxs).append _
  | ⟨_, .object ps inline⟩, cs, h, ht => by
    obtain ⟨s, hs⟩ := objectText_begins ht
    obtain ⟨ds, rfl, -⟩ := Text.ofChars_of_chars_append ['\x7b'] hs.symm
    exact begins_opening rfl (fun _ => rfl) (.inr rfl) ds
  | ⟨_, .array es inline⟩, cs, h, ht => by
    obtain ⟨s, hs⟩ := arrayText_begins ht
    obtain ⟨ds, rfl, -⟩ := Text.ofChars_of_chars_append ['['] hs.symm
    exact begins_opening rfl (fun _ => rfl) (.inl rfl) ds
  | ⟨_, .access a⟩, cs, h, ht => by
    obtain ⟨ch, s, -, hs⟩ := access_begins ht
    obtain ⟨xs, ys, rfl, hx, -⟩ := Text.ofChars_of_append hs.symm
    rw [plainExpression, Access.isPlain, hx, Bool.and_eq_true, Bool.and_eq_true] at h
    exact (begins_word (isPlainName_ofChars h.1.1).1).append ys

end ApiRoutes.Script
