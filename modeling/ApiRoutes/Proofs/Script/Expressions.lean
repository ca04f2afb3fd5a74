import ApiRoutes.Proofs.Script.Calls
/-!
# Reading expressions

An operand that no operator stands before or after is an expression (`cover_of_operand`), and so is an
assignment to one (`assignment_reads`).
-/
namespace ApiRoutes.Script

open Recogniser Grammar

/-! ## No operators before -/

/-- The words that stand before operands. -/
def operandWords : List String := ["typeof", "void", "delete", "await", "yield", "new"]

/-- An operand starts here, and no operator before one. -/
structure StartsOperand (cs : List Char) : Prop where
  sign : signAt cs ∈ ["", "[", "\x7b"]
  word : wordAt cs ∉ operandWords

theorem startsOperand_cons {ch : Char} {r : List Char} (hs : signAt (ch :: r) ∈ ["", "[", "\x7b"])
    (hw : isWordPart ch = false ∨ ch.isDigit = true) (hne : ch ≠ '\\') : StartsOperand (ch :: r) :=
  ⟨hs, by rw [wordAt_eq_empty hw hne]; decide⟩

theorem startsOperand_word {cs r : List Char} (hcs : isWord cs = true) (hr : endsWord r = true)
    (hw : String.ofList cs ∉ operandWords) : StartsOperand (cs ++ r) := by
  refine ⟨?_, by rwa [wordAt_past hcs hr]⟩
  obtain ⟨ch, ds, rfl, hch, -⟩ := isWord_iff.1 hcs
  rw [List.cons_append, signAt_eq_empty (not_mem_signHeads hch)]
  decide

theorem startsOperand_name {cs r : List Char} (hcs : isPlainName (Text.ofChars cs) = true)
    (hr : endsWord r = true) : StartsOperand (cs ++ r) := by
  obtain ⟨hword, hname, hctx⟩ := isPlainName_ofChars hcs
  refine startsOperand_word hword hr fun hmem => ?_
  have hall : operandWords.all (fun w => !isNameWord w || contextualWords.contains w) = true := by decide
  have := List.all_eq_true.1 hall _ hmem
  rw [hname, hctx] at this
  cases this

theorem startsOperand_string {cs : List Char} {n : Nat} (h : stringLength? cs = some n) (r : List Char) :
    StartsOperand (cs ++ r) := by
  obtain ⟨ch, ds, rfl, hq⟩ := quote_of_stringLength? h
  rcases hq with rfl | rfl
  · exact startsOperand_cons (by rw [signAt_eq_empty (by decide)]; decide) (.inl (by decide)) (by decide)
  · exact startsOperand_cons (by rw [signAt_eq_empty (by decide)]; decide) (.inl (by decide)) (by decide)

/-- A numeral starts with a digit. -/
theorem isNumeral_head {cs : List Char} (h : isNumeral cs = true) : ∃ d es, cs = d :: es ∧ d.isDigit = true := by
  rw [isNumeral, Bool.and_eq_true] at h
  cases cs with
  | nil => cases h.1
  | cons d es => exact ⟨d, es, rfl, h.1⟩

theorem digit_ne {d e : Char} (hd : d.isDigit = true) (he : e.isDigit = false) : d ≠ e := by
  rintro rfl
  rw [hd] at he
  cases he

theorem startsOperand_numeral {cs : List Char} (h : isNumeral cs = true) (r : List Char) : StartsOperand (cs ++ r) := by
  obtain ⟨d, es, rfl, hd⟩ := isNumeral_head h
  refine startsOperand_cons ?_ (.inr hd) (digit_ne hd rfl)
  have hall : "0123456789".toList.all (fun d => !signHeads.contains d) = true := by decide
  have := List.all_eq_true.1 hall d (isDigit_mem hd)
  rw [Bool.not_eq_true', List.contains_eq_mem, decide_eq_false_iff_not] at this
  rw [List.append_eq, signAt_eq_empty this]
  decide

/-- The expression starts with a name that something follows, or with a string. -/
inductive Leads (n : Node) (cs : List Char) : Prop
  | name {x r : List Char} (h : cs = x ++ r) (hx : isPlainName (Text.ofChars x) = true)
    (hl : leadingName n = some (Text.ofChars x)) (hr : Follows r)
  | string {ch : Char} {r : List Char} (h : cs = ch :: r) (hch : ch = '\'' ∨ ch = '"') (hl : leadingName n = none)

theorem Leads.of {m n : Node} {cs : List Char} (h : Leads m cs) (hl : leadingName n = leadingName m) : Leads n cs := by
  cases h with
  | name h hx hm hr => exact .name h hx (hl.trans hm) hr
  | string h hch hm => exact .string h hch (hl.trans hm)

theorem leads_of_operand {L : Nat} : ∀ {n : Node} {cs r : List Char}, n.isOperand = true → plainExpression n = true →
    expressionText L n = .ok (Text.ofChars cs) → Follows r → Leads n (cs ++ r)
  | ⟨_, .identifier x⟩, cs, r, _, h, ht, hr => by
    rw [expressionText] at ht
    obtain rfl := Except.ok.inj ht
    exact .name rfl h rfl hr
  | ⟨_, .literal v raw⟩, cs, r, hop, h, ht, hr => by
    cases literalToken_of_plain h (literalText_eq.symm.trans ht) with
    | number hv => cases v <;> first | exact absurd hop Bool.false_ne_true | exact absurd hv Bool.false_ne_true
    | text hlen =>
      obtain ⟨ch, ds, rfl, hq⟩ := quote_of_stringLength? hlen
      exact .string rfl hq rfl
    | _ => cases hop
  | ⟨_, .member o x computed⟩, cs, r, _, h, ht, hr => by
    obtain ⟨os, hos, hcs⟩ := memberChars_ok ht
    rw [plainExpression] at h
    simp only [Bool.and_eq_true] at h
    obtain ⟨⟨⟨hop, -⟩, ho⟩, hx⟩ := h
    rcases hcs with ⟨-, is, -, rfl⟩ | ⟨rfl, ps, rfl, rfl⟩
    · rw [List.append_assoc]
      exact (leads_of_operand hop ho hos (follows_sign (by decide) rfl)).of rfl
    · rw [Bool.false_and, Bool.false_or, isPlainWord, Text.toChars?_ofChars, Option.any_some] at hx
      rw [List.append_assoc]
      exact (leads_of_operand hop ho hos (follows_point hx)).of rfl
  | ⟨_, .call f as⟩, cs, r, _, h, ht, hr => by
    obtain ⟨fs, xs, hfs, -, rfl⟩ := callChars_ok ht
    rw [plainExpression] at h
    simp only [Bool.and_eq_true] at h
    rw [List.append_assoc]
    exact (leads_of_operand h.1.1.1 h.1.2 hfs (follows_sign (by decide) rfl)).of rfl
  | ⟨_, .access a⟩, cs, r, _, h, ht, hr => by
    obtain ⟨ch, s, hne, hs⟩ := access_begins ht
    obtain ⟨xs, ys, rfl, hx, hy⟩ := Text.ofChars_of_append hs.symm
    obtain ⟨zs, rfl, -⟩ := Text.ofChars_of_chars_append ['.', ch] hy
    rw [plainExpression, Access.isPlain, hx, Bool.and_eq_true, Bool.and_eq_true] at h
    rw [List.append_assoc]
    exact .name rfl h.1.1 (congrArg some hx) (follows_sign (by decide) (signAt_point hne))

theorem Leads.startsOperand {n : Node} {cs : List Char} (h : Leads n cs) : StartsOperand cs := by
  cases h with
  | name h hx _ hr => rw [h]; exact startsOperand_name hx hr.endsWord
  | string h hch =>
    rw [h]
    rcases hch with rfl | rfl <;>
      exact startsOperand_cons (by rw [signAt_eq_empty (by decide)]; decide) (.inl (by decide)) (by decide)

section

variable {g : Grammar} {N L : Nat} {p q : Progress} {before : List Concrete} {c : Cursor} {cs r : List Char}

theorem StartsOperand.no_prefix (h : StartsOperand c.rest) (ha : Ahead p before c) : Reads seesPrefix p false p := by
  have hsigns : ["", "[", "\x7b"].all (fun s => !prefixSigns.contains s) = true := by decide
  have hsign := List.all_eq_true.1 hsigns _ h.sign
  refine Reads.bind ha.sign (.ite_not (by simpa using hsign) ?_)
  obtain ⟨ds, hthen⟩ : ∃ ds, Reads wordThen p (wordAt c.rest, ds) p := ⟨_, ha.wordThen rfl rfl⟩
  refine Reads.bind hthen ?_
  have hwords : prefixWords.contains (wordAt c.rest) = false := by
    rw [List.contains_eq_mem, decide_eq_false_iff_not]
    exact fun hmem => h.word (List.mem_append_left ["await", "yield", "new"] hmem)
  have hawait : (wordAt c.rest == "await") = false :=
    beq_eq_false_iff_ne.2 fun e => h.word (by rw [e]; decide)
  have hno : (prefixWords.contains (wordAt c.rest) || (wordAt c.rest == "await" && !endsAwait ds)) = false := by
    rw [hwords, hawait]
    rfl
  exact hno ▸ .pure _ p

/-! ## No operators after -/

/-- The sign after an expression goes on with no operand. -/
theorem suffix_none {cov : Cover} {ch : Char} (hch : ch = '=' ∨ ch ∈ closers) (ha : Ahead p [] c)
    (hs : signAt c.rest = String.singleton ch) : Reads (suffix? g true cov) p none p := by
  refine Reads.bind ha.sign ?_
  rw [hs]
  simp only [closers, List.mem_cons, List.not_mem_nil, or_false] at hch
  have hline : Reads onNewLine p (c.row != p.cursor.row) p := (Reads.get p).bind (Reads.bind ha (.pure _ p))
  rcases hch with rfl | rfl | rfl | rfl | rfl | rfl <;> exact hline.bind (.ite_not rfl (.pure _ p))

/-- The sign after an expression is no operator. -/
structure EndsOperand (p : Progress) (s : String) : Prop where
  sign : Reads sign p s p
  sees : ∀ s', Reads (seesSign s') p (s == s') p
  word : Reads word p "" p
  suffix : ∀ (g : Grammar) (cov : Cover), Reads (suffix? g true cov) p none p

theorem endsOperand_of_meets {ch : Char} (hch : ch = '=' ∨ ch ∈ closers) (h : Meets ch r) (hp : p.cursor.rest = r) :
    EndsOperand p (String.singleton ch) := by
  have hfollow : ch ∈ followers := by
    rcases hch with rfl | hch
    · decide
    · exact List.mem_append_right ['.', '[', '(', '='] hch
  obtain ⟨c, s, ha, hc, hs⟩ := h.ahead hfollow hp
  refine ⟨hs ▸ ha.sign, fun s' => ha.seesSign hs s', ?_, fun g cov => suffix_none hch ha hs⟩
  have := ha.word
  rwa [hc, wordAt_follower hfollow] at this

/-- An operand is read, with its accesses. -/
theorem assigned_reads {first cov : Cover} {ch : Char} (hstart : StartsOperand c.rest) (ha : Ahead p before c)
    (hfirst : Reads (primary g) p first q) (hs : Suffixes g q first ⟨c.past cs, true⟩ cov) (hc : c.rest = cs ++ r)
    (hch : ch ∈ closers) (hr : Meets ch r) : Reads (assigned g) p cov ⟨c.past cs, true⟩ := by
  have hend : EndsOperand ⟨c.past cs, true⟩ (String.singleton ch) := endsOperand_of_meets (.inr hch) hr (Cursor.rest_past hc)
  have hnew : (wordAt c.rest == "new") = false := beq_eq_false_iff_ne.2 fun e => hstart.word (by rw [e]; decide)
  refine (ha.seesWord rfl _).bind (.ite_not hnew (hfirst.bind ?_))
  refine (bound_reads q).bind ((hs.reads (hend.suffix g cov)).bind (hend.sign.bind ?_))
  have hall : closers.all (fun ch => !(String.singleton ch == "=") && !updateSigns.contains (String.singleton ch)) = true := by
    decide
  have hno := List.all_eq_true.1 hall ch hch
  rw [Bool.and_eq_true, Bool.not_eq_true', Bool.not_eq_true'] at hno
  refine .ite_not (by rw [hno.1]; rfl) (.ite_not (by rw [hno.2]; rfl) (.pure _ _))

theorem StartsOperand.not_yield (h : StartsOperand c.rest) (ha : Ahead p before c) : Reads (seesWord "yield") p false p := by
  have hno : (wordAt c.rest == "yield") = false := beq_eq_false_iff_ne.2 fun e => h.word (by rw [e]; decide)
  exact hno ▸ ha.seesWord rfl "yield"

/-- No operator stands after an operand. -/
theorem cover_of_operand_end {cov : Cover} {ch : Char} (h : Reads (Grammar.operand g) p cov q) (hch : ch ∈ closers)
    (hr : Meets ch q.cursor.rest) : Reads (coverFrom g) p cov q := by
  have hend := endsOperand_of_meets (.inr hch) hr rfl
  have hall : closers.all (fun ch => !binarySigns.contains (String.singleton ch) && !(String.singleton ch == "?")) = true := by
    decide
  have hno := List.all_eq_true.1 hall ch hch
  rw [Bool.and_eq_true, Bool.not_eq_true', Bool.not_eq_true'] at hno
  have hbinary : Reads seesBinary q false q := hend.sign.bind (.ite_not hno.1 (hend.word.bind (.pure _ q)))
  have hoperation : Reads (operation g) p cov q := h.bind (hbinary.bind (.ite_not rfl (.pure _ q)))
  exact hoperation.bind ((hend.sees "?").bind (.ite_not hno.2 (.pure _ q)))

/-- Nothing stands before or after an operand. -/
theorem cover_of_assigned {cov : Cover} {ch : Char} (hstart : StartsOperand c.rest) (ha : Ahead p before c)
    (h : Reads (assigned g) p cov q) (hch : ch ∈ closers) (hr : Meets ch q.cursor.rest) :
    Reads (coverFrom g) p cov q := by
  refine cover_of_operand_end ?_ hch hr
  exact (many_nil (hstart.no_prefix ha)).bind ((hstart.not_yield ha).bind (.ite_not rfl (h.bind (.ite rfl (.pure _ q)))))

/-- **An operand on its own is an expression.** -/
theorem cover_of_operand {n : Node} (hstart : StartsOperand c.rest) (ha : Ahead p before c)
    (h : Operand g L p before c n cs) (hc : c.rest = cs ++ r) (hr : Closes r) :
    ∃ cov t, Reads (coverFrom g) p cov ⟨c.past cs, true⟩ ∧ cov.Stands before t ∧ t.Means c cs L n := by
  obtain ⟨first, q, cov, t, hfirst, hsuffixes, hstands, ht, -⟩ := h
  obtain ⟨ch, hch, hmeets⟩ := hr
  have hassigned := assigned_reads hstart ha hfirst hsuffixes hc hch hmeets
  refine ⟨cov, t, cover_of_assigned hstart ha hassigned hch ?_, hstands, ht⟩
  rwa [Cursor.rest_past hc]

/-! ## Scalars -/

/-- A tree that is kept has its characters for a text. -/
theorem keep_past {t : Concrete} (ht : t.span = ⟨c, c.past cs⟩) (hc : c.rest = cs ++ r) :
    ∃ i, keep t = .ofShape (.raw (Text.ofChars cs) i) :=
  ⟨_, by rw [keep, Concrete.text, ht, Span.text_past hc]⟩

/-- A numeral that a plain number is written as is read as a number. -/
theorem numberValue?_of_plain {v : Value} {raw : Option Text} (hv : isNumber v = true) (h : isPlainLiteral v raw = true)
    (ht : literalText v raw = .ok (Text.ofChars cs)) (hcs : isNumeral cs = true) : (numberValue? cs).isSome = true := by
  have hspelling : ((literalText v raw).toOption.any isNumberSpelling) = true := by
    cases v <;> first | exact (Bool.and_eq_true_iff.1 h).2 | exact absurd hv Bool.false_ne_true
  rw [ht] at hspelling
  change ((Text.ofChars cs).toChars?.any fun cs => !isNumeral cs || (numberValue? cs).isSome) = true at hspelling
  rw [Text.toChars?_ofChars, Option.any_some, hcs] at hspelling
  exact hspelling

theorem operand_null {l : Layout} {raw : Option Text} (ha : Ahead p before c)
    (hraw : literalText .null raw = .ok (Text.ofChars "null".toList)) (hc : c.rest = "null".toList ++ r) (hr : Follows r) :
    Operand g L p before c ⟨l, .literal .null raw⟩ "null".toList := by
  have hword := anyWord_reads ha hc (by decide) hr.endsWord .null
  exact ⟨_, _, _, .node .null none ⟨c, c.past "null".toList⟩ [],
    primary_word ha hc (by decide) hr.endsWord hword.map, .refl, ⟨rfl, rfl⟩,
    ⟨rfl, rfl, nofun, _, rfl, .literal rfl hraw, rfl⟩, nofun⟩

theorem operand_truth {l : Layout} {b : Bool} {raw : Option Text} (ha : Ahead p before c)
    (hraw : literalText (.bool b) raw = .ok (Text.ofChars cs)) (hcs : cs = (if b then "true" else "false").toList)
    (hc : c.rest = cs ++ r) (hr : Follows r) :
    Operand g L p before c ⟨l, .literal (.bool b) raw⟩ cs := by
  have hw : isWord cs = true := by subst hcs; cases b <;> decide
  have hword := anyWord_reads ha hc hw hr.endsWord (.truth b)
  have hprimary : Reads (primary g) p (.ofPiece (tokenPiece before (.truth b) c cs)) ⟨c.past cs, true⟩ := by
    refine primary_word ha hc hw hr.endsWord ?_
    subst hcs
    cases b <;> exact hword.map
  refine ⟨_, _, _, _, hprimary, .refl, ⟨rfl, rfl⟩, ⟨rfl, rfl, nofun, _, ?_, .literal rfl hraw, rfl⟩, nofun⟩
  rw [readExpression, Span.text_past hc]
  rfl

theorem number_reads (ha : Ahead p before c) (hcs : isNumeral cs = true) (hc : c.rest = cs ++ r) (hr : endsNumber r = true) :
    Reads (primary g) p (.ofPiece (tokenPiece before .number c cs)) ⟨c.past cs, true⟩ := by
  rw [isNumeral, Bool.and_eq_true, beq_iff_eq] at hcs
  obtain ⟨hdigit, hlen⟩ := hcs
  have hnumber : Reads number p (tokenPiece before .number c cs) ⟨c.past cs, true⟩ := by
    refine Reads.bind ha.charsAhead ?_
    rw [hc, numberLength_past hr, hlen]
    have hpos : cs.length ≠ 0 := by
      rintro h
      rw [List.length_eq_zero_iff.1 h] at hdigit
      cases hdigit
    split
    · rename_i h
      exact absurd h hpos
    · exact ha.leaf _ _ _
  cases cs with
  | nil => cases hdigit
  | cons ch ds =>
    have hne {d : Char} (hd : d.isDigit = false) : ch ≠ d := fun e => by
      rw [← e] at hd
      exact absurd (hdigit.symm.trans hd) Bool.noConfusion
    refine Reads.bind ha.charsAhead ?_
    rw [hc, List.cons_append]
    split <;> rename_i heq <;> cases heq
    iterate 8 exact absurd rfl (hne (by decide))
    have hquote : (ch == '\'' || ch == '"') = false := by
      rw [beq_eq_false_iff_ne.2 (hne (by decide)), beq_eq_false_iff_ne.2 (hne (by decide))]
      rfl
    refine .ite_not hquote (.ite ?_ hnumber.map)
    rw [show ch.isDigit = true from hdigit]
    rfl

/-- **A numeral is read** as a number, or kept as its text. -/
theorem operand_numeral {l : Layout} {v : Value} {raw : Option Text} (hv : isNumber v = true) (ha : Ahead p before c)
    (hraw : literalText v raw = .ok (Text.ofChars cs)) (hcs : isNumeral cs = true) (hvalue : (numberValue? cs).isSome = true)
    (hc : c.rest = cs ++ r) (hr : endsNumber r = true) : Operand g L p before c ⟨l, .literal v raw⟩ cs := by
  obtain ⟨s, hread, hsame, htext⟩ : ReadsBack readExpression (expressionText L) (⟨l, .literal v raw⟩, cs) (.node .number none ⟨c, c.past cs⟩ []) := by
    obtain ⟨w, hw⟩ := Option.isSome_iff_exists.1 hvalue
    rw [ReadsBack, readExpression, Span.chars_past hc, Span.text_past hc, hw]
    exact ⟨_, rfl, .number hv hraw (.literal hcs hw), rfl⟩
  exact ⟨_, _, _, _, number_reads ha hcs hc hr, .refl, ⟨rfl, rfl⟩,
    ⟨rfl, rfl, fun h => by cases v <;> first | exact absurd h Bool.false_ne_true | exact absurd hv Bool.false_ne_true, s, hread, hsame, htext⟩, fun h => by cases h⟩

/-- A word for a number is read as a name. -/
theorem operand_numberWord {l : Layout} {v : Value} {raw : Option Text} (hv : isNumber v = true) (ha : Ahead p before c)
    (hraw : literalText v raw = .ok (Text.ofChars cs)) (hcs : isPlainName (Text.ofChars cs) = true)
    (hc : c.rest = cs ++ r) (hr : Follows r) : Operand g L p before c ⟨l, .literal v raw⟩ cs := by
  refine ⟨_, _, _, _, primary_name ha hc hcs hr, .refl, ⟨rfl, rfl⟩, ⟨rfl, rfl, ?_, _, ?_, .number hv hraw (.identifier hcs), rfl⟩,
    nofun⟩
  · intro h
    cases v <;> first | exact absurd h Bool.false_ne_true | exact absurd hv Bool.false_ne_true
  · rw [readExpression, Span.text_past hc]
    rfl

/-! ## Negative numbers -/

/-- The tree of a number with a minus before it. -/
def negativeTree (c : Cursor) (cs : List Char) (t : Concrete) : Concrete :=
  .node .other none ⟨c, c.past cs⟩ [.node (.token "-") none ⟨c, c.past ['-']⟩ [], t]

theorem negative_reads (ha : Ahead p before c) (hcs : isNegative (Text.ofChars cs) = true) (hc : c.rest = cs ++ r)
    (hr : Closes r) : ∃ cov t, Reads (coverFrom g) p cov ⟨c.past cs, true⟩ ∧ cov.Stands before (negativeTree c cs t) := by
  rw [isNegative, Text.toChars?_ofChars, Option.any_some] at hcs
  split at hcs
  · rename_i ds
    obtain ⟨ch, hch, hmeets⟩ := hr
    have hc' : (c.past ['-']).rest = ds ++ r := Cursor.rest_past hc
    have hpast : (c.past ['-']).past ds = c.past ('-' :: ds) := (Cursor.past_cons c '-' ds).symm
    obtain ⟨first, t, hsign, hstart, hops, hfirst, hstands, hspan⟩ : ∃ first t, signAt ('-' :: ds ++ r) = "-" ∧
        StartsToken (ds ++ r) ∧ StartsOperand (ds ++ r) ∧
        (∀ {p : Progress}, Ahead p [] (c.past ['-']) →
          Reads (primary g) p first ⟨(c.past ['-']).past ds, true⟩) ∧
        first.Stands [] t ∧ t.span.stop = (c.past ['-']).past ds := by
      rw [Bool.or_eq_true, beq_iff_eq] at hcs
      rcases hcs with hnum | rfl
      · obtain ⟨d, es, rfl, hd⟩ := isNumeral_head hnum
        exact ⟨_, _, signAt_minus (digit_ne hd rfl) (digit_ne hd rfl), (begins_numeral hnum r).1, startsOperand_numeral hnum r,
          fun ha => number_reads ha hnum hc' (Closes.endsNumber ⟨ch, hch, hmeets⟩), ⟨rfl, rfl⟩, rfl⟩
      · have hname : isPlainName (Text.ofChars "Infinity".toList) = true := by decide
        have hfollows : Follows r := Closes.follows ⟨ch, hch, hmeets⟩
        exact ⟨_, _, rfl, startsToken_word (by decide) r, startsOperand_name hname hfollows.endsWord,
          fun ha => primary_name ha hc' hname hfollows, ⟨rfl, rfl⟩, rfl⟩
    rw [hpast] at hfirst hspan
    rw [← hc] at hsign
    have ha' : Ahead ⟨c.past ['-'], false⟩ [] (c.past ['-']) := ahead_here (by rw [hc']; exact hstart)
    rw [← hc'] at hops
    have hassigned : Reads (assigned g) ⟨c.past ['-'], false⟩ first ⟨c.past ('-' :: ds), true⟩ :=
      hpast ▸ assigned_reads hops ha' (hpast ▸ hfirst ha') .refl hc' hch hmeets
    have hprefix : Reads seesPrefix p true p := Reads.bind ha.sign (.ite (by rw [hsign]; decide) (.pure _ p))
    have htoken : Reads prefixToken p (tokenPiece before (.token "-") c ['-']) ⟨c.past ['-'], false⟩ := by
      refine Reads.bind ha.sign ?_
      rw [hsign]
      exact .ite_not rfl (ha.leaf _ ['-'] _)
    have hmany : Reads (many seesPrefix prefixToken) p [tokenPiece before (.token "-") c ['-']] ⟨c.past ['-'], false⟩ := by
      refine (Run.cons hprefix htoken ?_ (.nil (hops.no_prefix ha'))).many
      refine Nat.lt_of_lt_of_le ?_ ha.length_le
      rw [hc', hc, List.cons_append]
      exact Nat.lt_succ_self _
    have hoperand : Reads (Grammar.operand g) p (.ofPiece ⟨before, some (negativeTree c ('-' :: ds) t)⟩) ⟨c.past ('-' :: ds), true⟩ := by
      refine hmany.bind ((hops.not_yield ha').bind (.ite_not rfl (hassigned.bind (.ite_not rfl ?_))))
      refine (hstands.expression _).bind ?_
      rw [negativeTree, ← hspan]
      exact .pure _ _
    refine ⟨_, t, cover_of_operand_end hoperand hch ?_, ⟨rfl, rfl⟩⟩
    rwa [Cursor.rest_past hc]
  · cases hcs

/-- A number with a minus before it is kept as its text. -/
theorem Concrete.Means.negative {n : Node} {t : Concrete} (hcs : isNegative (Text.ofChars cs) = true) (hc : c.rest = cs ++ r)
    (hn : n.isQuoted = false) (h : ∀ i, n.shape.ReadsAs (.raw (Text.ofChars cs) i)) : (negativeTree c cs t).Means c cs L n := by
  obtain ⟨i, hkeep⟩ := keep_past (t := negativeTree c cs t) rfl hc
  have hread : readExpression (negativeTree c cs t) = .ok (keep (negativeTree c cs t)) := rfl
  exact ⟨rfl, rfl, fun hq => absurd (hq.symm.trans hn) Bool.noConfusion, .raw (Text.ofChars cs) i, hkeep ▸ hread, h i,
    congrArg Except.ok (renderRaw_negative hcs)⟩

/-- **A scalar is read back.** -/
theorem literal_reads {l : Layout} {v : Value} {raw : Option Text} (hn : isPlainLiteral v raw = true)
    (ht : literalText v raw = .ok (Text.ofChars cs)) (ha : Ahead p before c) (hc : c.rest = cs ++ r) (hr : Closes r) :
    ∃ cov t, Reads (coverFrom g) p cov ⟨c.past cs, true⟩ ∧ cov.Stands before t ∧ t.Means c cs L ⟨l, .literal v raw⟩ := by
  have hstart {ds : List Char} (h : StartsOperand (ds ++ r)) (he : cs = ds) : StartsOperand c.rest := by
    rwa [hc, he]
  cases literalToken_of_plain hn ht with
  | null =>
    refine cover_of_operand (hstart ?_ rfl) ha (operand_null ha ht hc hr.follows) hc hr
    exact startsOperand_word (by decide) hr.follows.endsWord (by decide)
  | truth b =>
    refine cover_of_operand (hstart ?_ rfl) ha (operand_truth ha ht rfl hc hr.follows) hc hr
    cases b <;> exact startsOperand_word (by decide) hr.follows.endsWord (by decide)
  | text hlen hval =>
    exact cover_of_operand (hstart (startsOperand_string hlen r) rfl) ha (operand_string ha hc ht hlen hval) hc hr
  | number hv h =>
    cases h with
    | numeral h =>
      have hvalue := numberValue?_of_plain hv hn ht h
      exact cover_of_operand (hstart (startsOperand_numeral h r) rfl) ha (operand_numeral hv ha ht h hvalue hc hr.endsNumber) hc hr
    | negative h =>
      obtain ⟨cov, t, hread, hstands⟩ := negative_reads ha h hc hr
      refine ⟨cov, _, hread, hstands, .negative h hc ?_ fun i => .number hv ht (.raw i h)⟩
      cases v <;> first | rfl | exact absurd hv Bool.false_ne_true
    | word h =>
      have hname : isPlainName (Text.ofChars cs) = true := by rcases h with rfl | rfl <;> decide
      refine cover_of_operand (hstart ?_ rfl) ha (operand_numberWord hv ha ht hname hc hr.follows) hc hr
      exact startsOperand_name hname hr.follows.endsWord

/-! ## Assignments -/

/-- The tree of an assignment. -/
def assignmentTree (t v : Concrete) (c d : Cursor) (vs : List Char) : Concrete :=
  .node .assignment none ⟨c, d.past (' ' :: '=' :: ' ' :: vs)⟩
    [t.withRole .left, signTree '=' (d.past [' ']), v.withRole .right]

theorem Concrete.Means.assignment {l : Layout} {a v : Node} {t u : Concrete} {d : Cursor} {xs vs : List Char}
    (ht : t.Means c xs L a) (hu : u.Means d vs L v) (ha : a.isBare = true) (hv : v.isBare = true) :
    (assignmentTree t u c (c.past xs) vs).Means c (xs ++ (' ' :: '=' :: ' ' :: vs)) L ⟨l, .assignment a v⟩ := by
  obtain ⟨k, role, sp, ts⟩ := t
  obtain ⟨k', role', sp', us⟩ := u
  obtain ⟨-, -, -, s, hread, hsame, htext⟩ := ht
  obtain ⟨-, -, -, s', hread', hsame', htext'⟩ := hu
  refine ⟨by rw [Cursor.past_append]; rfl, rfl, nofun, .assignment (.ofShape s) (.ofShape s'), ?_,
    .assignment (Node.readsAs_of_bare ha hsame) (Node.readsAs_of_bare hv hsame'), ?_⟩
  · rw [readExpression_role k role (some .left)] at hread
    rw [readExpression_role k' role' (some .right)] at hread'
    rw [assignmentTree, readExpression]
    change orKeep _ (do
      let t ← readExpression (.node k (some .left) sp ts)
      return .assignment t (← readExpression (.node k' (some .right) sp' us))) = _
    rw [hread, hread']
    rfl
  · rw [Node.ofShape, expressionText, htext, htext', Text.ofChars_append]
    exact congrArg Except.ok (List.append_assoc _ _ _)

/-- **An assignment is read back.** -/
theorem assignment_reads (hg : g.ReadsExpressions N) {l : Layout} {a v : Node} {xs vs : List Char} (hstart : StartsOperand c.rest)
    (ha : Ahead p before c) (htarget : a.isTarget = true) (hbare : a.isBare = true) (hbare' : v.isBare = true)
    (h : Operand g L p before c a xs) (hv : plainExpression v = true) (hvs : expressionText L v = .ok (Text.ofChars vs))
    (hN : vs.length < N) (hc : c.rest = xs ++ (' ' :: '=' :: ' ' :: vs ++ r)) (hr : Closes r) :
    ∃ cov t, Reads (coverFrom g) p cov ⟨c.past (xs ++ (' ' :: '=' :: ' ' :: vs)), true⟩ ∧ cov.Stands before t ∧
      t.Means c (xs ++ (' ' :: '=' :: ' ' :: vs)) L ⟨l, .assignment a v⟩ := by
  obtain ⟨first, q, cov, t, hfirst, hsuffixes, hstands, ht, htarget'⟩ := h
  obtain ⟨hcov, hobject, harray⟩ := htarget' htarget
  have hxs := Cursor.rest_past hc
  have hsign : Meets '=' (' ' :: '=' :: ' ' :: vs ++ r) := ⟨[' '], ' ' :: vs ++ r, rfl, .inr rfl, rfl⟩
  have hend : EndsOperand ⟨c.past xs, true⟩ "=" := endsOperand_of_meets (.inl rfl) hsign hxs
  obtain ⟨d, hd, hahead⟩ : ∃ d : Cursor, d = (c.past xs).past [' '] ∧ Ahead ⟨c.past xs, true⟩ [] d :=
    ⟨_, rfl, ahead_gap hxs rfl (startsToken_cons rfl _)⟩
  have hdrest : d.rest = ['='] ++ (' ' :: vs ++ r) := hd ▸ Cursor.rest_past hxs
  have hequal := sign_reads '=' hahead (by rw [hdrest]; rfl)
  have hgap : (d.past ['=']).rest = [' '] ++ (vs ++ r) := Cursor.rest_past hdrest
  have hbegin := (begins_of_plain hv hvs r).1
  obtain ⟨vcov, u, hvread, hvstands, hu⟩ := hg hv hvs hN (ahead_gap (p := ⟨d.past ['='], false⟩) hgap rfl hbegin)
    (Cursor.rest_past hgap) hr
  have hpast : ((d.past ['=']).past [' ']).past vs = c.past (xs ++ (' ' :: '=' :: ' ' :: vs)) := by
    rw [hd, Cursor.past_append]
    rfl
  have hassigned : Reads (assigned g) p { piece := ⟨before, some (assignmentTree t u c (c.past xs) vs)⟩, isBinding := cov.isPattern }
      ⟨c.past (xs ++ (' ' :: '=' :: ' ' :: vs)), true⟩ := by
    have hnew : (wordAt c.rest == "new") = false := beq_eq_false_iff_ne.2 fun e => hstart.word (by rw [e]; decide)
    refine (ha.seesWord rfl _).bind (.ite_not hnew (hfirst.bind ?_))
    refine (bound_reads q).bind ((hsuffixes.reads (hend.suffix g cov)).bind (hend.sign.bind ?_))
    refine .ite (by rw [hcov]; rfl) (hequal.bind ((expression_reads hvread hvstands).bind ?_))
    obtain ⟨k, role, sp, ts⟩ := t
    obtain ⟨k', role', sp', us⟩ := u
    obtain rfl : sp = ⟨c, c.past xs⟩ := ht.span
    obtain rfl : sp' = ⟨_, ((d.past ['=']).past [' ']).past vs⟩ := hu.span
    rw [assignmentTree, ← Cursor.past_append c xs, ← hd, hpast, hstands.piece]
    -- only an object or an array is read anew as a pattern
    cases k <;> first | exact absurd rfl hobject | exact absurd rfl harray | exact .pure _ _
  obtain ⟨ch, hch, hmeets⟩ := hr
  refine ⟨_, _, cover_of_assigned hstart ha hassigned hch ?_, ⟨rfl, rfl⟩, ht.assignment hu hbare hbare'⟩
  rw [← hpast]
  rwa [Cursor.rest_past (Cursor.rest_past hgap)]

end

end ApiRoutes.Script
