import ApiRoutes.Proofs.Script.RoundTrip
/-!
# Plain programs are printed

A plain program has a text, and a file can hold it (`render_of_plain`): names, keys and strings of plain nodes are
writable, and what the writer puts between them is.
-/
namespace ApiRoutes.Script

variable {L : Nat} {t u : Text} {ts : List Text} {n : Node}

/-! ## Writable texts -/

theorem isWritable_eq_all : ∀ t : Text, isWritable t = t.all fun c => c.char?.isSome
  | [] => rfl
  | c :: t => by
    have ih := isWritable_eq_all t
    unfold isWritable Text.toChars? at ih ⊢
    rw [List.all_cons, ← ih, List.mapM_cons]
    cases c.char? with
    | none => rfl
    | some x => cases List.mapM CodePoint.char? t <;> rfl

@[simp]
theorem isWritable_append : isWritable (t ++ u) = (isWritable t && isWritable u) := by
  simp only [isWritable_eq_all, List.all_append]

@[simp]
theorem isWritable_ofString (s : String) : isWritable (Text.ofString s) = true := isWritable_ofChars s.toList

theorem isWritable_of_any {p : List Char → Bool} (h : t.toChars?.any p = true) : isWritable t = true := by
  cases hc : t.toChars? with
  | none =>
    rw [hc] at h
    cases h
  | some cs => rw [isWritable, hc]; rfl

theorem isWritable_flatten (h : ∀ t ∈ ts, isWritable t = true) : isWritable ts.flatten = true := by
  induction ts with
  | nil => rfl
  | cons t ts ih =>
    rw [List.forall_mem_cons] at h
    rw [List.flatten_cons, isWritable_append, h.1, ih h.2]
    rfl

theorem isWritable_joinWith {sep : Text} (hsep : isWritable sep = true) : ∀ {ts : List Text}, (∀ t ∈ ts, isWritable t = true) →
    isWritable (Text.joinWith sep ts) = true
  | [], _ => rfl
  | [t], h => h t List.mem_cons_self
  | t :: u :: ts, h => by
    rw [List.forall_mem_cons] at h
    rw [Text.joinWith, isWritable_append, isWritable_append, h.1, hsep, isWritable_joinWith hsep h.2]
    rfl

theorem isWritable_linesText (h : ∀ t ∈ ts, isWritable t = true) : isWritable (linesText ts) = true := by
  rw [linesText, List.flatMap_def]
  apply isWritable_flatten
  intro t ht
  obtain ⟨l, hl, rfl⟩ := List.mem_map.1 ht
  rw [isWritable_append, h l hl]
  rfl

@[simp]
theorem isWritable_indentation (level : Nat) : isWritable (indentation level) = true := by
  rw [indentation_eq]
  exact isWritable_ofChars _

theorem isWritable_quote_of_writable (h : isWritable t = true) : isWritable (quote t) = true := by
  obtain ⟨cs, rfl⟩ := isWritable_iff.1 h
  exact isWritable_iff.2 (quote_ofChars cs)

theorem isWritable_comment {c : Comment} (h : c.isSound = true) : isWritable c.render = true := isWritable_of_any h

theorem isWritable_key {k : Text} (h : isPlainKey k = true) : isWritable (propertyKey k) = true :=
  (Bool.and_eq_true_iff.1 h).1

/-! ## Expressions -/

/-- The text comes out, and a file can hold it. -/
def HasText (o : Outcome Text) : Prop := ∃ t, o = .ok t ∧ isWritable t = true

/-- The texts come out, and a file can hold them. -/
def HaveTexts (o : Outcome (List Text)) : Prop := ∃ ts, o = .ok ts ∧ ∀ t ∈ ts, isWritable t = true

/-- The lines come out, and a file can hold them. -/
def HaveLines (o : Outcome (List (List Text))) : Prop := ∃ bs, o = .ok bs ∧ ∀ ts ∈ bs, ∀ t ∈ ts, isWritable t = true

theorem isWritable_name {x : Text} (h : isPlainName x = true) : isWritable x = true := isWritable_of_any h

theorem literal_hasText {v : Value} {raw : Option Text} (h : isPlainLiteral v raw = true) : HasText (literalText v raw) := by
  have hnumber {raw : Option Text} (hv : isNumber v = true) (hraw : (raw.all fun t => t.toChars?.any isNumeral) = true) :
      HasText (literalText v raw) := by
    cases raw with
    | some t => exact ⟨t, rfl, isWritable_of_any hraw⟩
    | none =>
      obtain ⟨t, ht⟩ : ∃ t, spellValue v = .ok t := by
        cases v <;> first | exact ⟨_, rfl⟩ | cases hv
      obtain ⟨cs, rfl, -⟩ := spellValue_number hv ht
      exact ⟨_, ht, isWritable_ofChars cs⟩
  cases v with
  | null =>
    cases raw with
    | none => exact ⟨_, rfl, isWritable_ofString _⟩
    | some t =>
      obtain rfl : t = Text.ofString "null" := beq_iff_eq.1 h
      exact ⟨_, rfl, isWritable_ofString _⟩
  | bool b =>
    cases raw with
    | none => exact ⟨_, rfl, by cases b <;> exact isWritable_ofString _⟩
    | some t =>
      obtain rfl : t = Text.ofString (if b then "true" else "false") := beq_iff_eq.1 h
      exact ⟨_, rfl, isWritable_ofString _⟩
  | int => exact hnumber rfl (Bool.and_eq_true_iff.1 h).1
  | float => exact hnumber rfl (Bool.and_eq_true_iff.1 h).1
  | text t =>
    cases raw with
    | none => exact ⟨_, rfl, h⟩
    | some s => exact ⟨s, rfl, isWritable_of_any (Bool.and_eq_true_iff.1 h).1⟩
  | _ => cases h

theorem access_hasText {a : Access} (h : a.isPlain = true) : HasText a.render := by
  rw [Access.isPlain, Bool.and_eq_true, Bool.and_eq_true] at h
  obtain ⟨⟨hrequest, hname⟩, hsome⟩ := h
  have hrequest := isWritable_name hrequest
  unfold Access.expression? at hsome
  unfold Access.render
  cases hc : collectionOf? a.location with
  | some collection =>
    refine ⟨_, rfl, ?_⟩
    unfold memberText
    split
    · rename_i hi
      have hkey := isWritable_key hname
      rw [propertyKey, if_pos hi] at hkey
      simp [hrequest, hkey]
    · simp [hrequest, isWritable_quote hname]
  | none =>
    rw [hc] at hsome
    by_cases hheader : a.location = "header"
    · simp only [if_pos hheader]
      exact ⟨_, rfl, by simp [hrequest, isWritable_quote hname]⟩
    · by_cases hbody : a.location = "body"
      · simp only [if_neg hheader, if_pos hbody]
        exact ⟨_, rfl, by simp [hrequest]⟩
      · simp only [if_neg hheader, if_neg hbody] at hsome
        cases hsome

theorem literalForm_hasText {opening closing pad : Text} {fits : Bool} {texts : Outcome (List Text)}
    {blocks : Outcome (List (List Text))} (ho : isWritable opening = true) (hc : isWritable closing = true)
    (hp : isWritable pad = true) (htexts : HaveTexts texts) (hblocks : HaveLines blocks) :
    HasText (literalForm opening closing pad L fits texts blocks) := by
  obtain ⟨ts, rfl, hts⟩ := htexts
  obtain ⟨bs, rfl, hbs⟩ := hblocks
  have hmany : HasText (.ok (onManyLines opening closing L bs)) := by
    refine ⟨_, rfl, ?_⟩
    have hlines : isWritable (linesText bs.flatten) = true := by
      apply isWritable_linesText
      intro t ht
      obtain ⟨ts, hts, ht⟩ := List.mem_flatten.1 ht
      exact hbs ts hts t ht
    rw [onManyLines_eq]
    simp [ho, hc, hlines]
  cases fits with
  | false => exact hmany
  | true =>
    by_cases hline : NoLineEnd ts
    · rw [literalForm_oneLine hline]
      refine ⟨_, rfl, ?_⟩
      simp [ho, hc, hp, isWritable_joinWith (isWritable_ofString _) hts]
    · rw [NoLineEnd, Bool.not_eq_false] at hline
      have hnone : onOneLine opening closing pad ts = none := if_pos hline
      rw [literalForm, if_pos rfl]
      simp only [bind, Except.bind, pure, Except.pure, hnone]
      exact hmany

theorem isWritable_withTrailing {trailing : Option Comment} (ht : isWritable t = true)
    (h : (trailing.all fun c => c.isSound && !c.text.any (· == '\n')) = true) : isWritable (withTrailing t trailing) = true := by
  cases trailing with
  | none => exact ht
  | some c =>
    have hc := isWritable_comment (Bool.and_eq_true_iff.1 h).1
    rw [withTrailing]
    simp [ht, hc]

theorem isWritable_comments {pad : Text} (hpad : isWritable pad = true) {cs : List Comment} (h : cs.all Comment.isSound = true) :
    ∀ l ∈ cs.map (fun c => pad ++ c.render), isWritable l = true := by
  intro l hl
  obtain ⟨c, hc, rfl⟩ := List.mem_map.1 hl
  simp [hpad, isWritable_comment (List.all_eq_true.1 h c hc)]

theorem isWritable_entryLines {pad : Text} (hpad : isWritable pad = true) (ht : isWritable t = true)
    (hn : n.isComment = false) (hl : n.layout.isPlain = true) : ∀ l ∈ entryLines pad n t, isWritable l = true := by
  obtain ⟨⟨comments, trailing, blank⟩, s⟩ := n
  rw [Layout.isPlain, Bool.and_eq_true] at hl
  have hlines : entryLines pad ⟨⟨comments, trailing, blank⟩, s⟩ t =
      comments.map (fun c => pad ++ c.render) ++ [withTrailing (pad ++ t ++ ",") trailing] := by
    cases s with
    | comment => cases hn
    | _ => cases trailing <;> rfl
  rw [hlines]
  intro l hmem
  rcases List.mem_append.1 hmem with h | h
  · exact isWritable_comments hpad hl.1 l h
  · rw [List.mem_singleton.1 h]
    exact isWritable_withTrailing (by simp [hpad, ht]) hl.2

theorem isComment_of_plain (h : plainExpression n = true) : n.isComment = false := by
  obtain ⟨l, s⟩ := n
  cases s <;> first | rfl | cases h

mutual

theorem expression_hasText : ∀ {n : Node} (L : Nat), plainExpression n = true → HasText (expressionText L n)
  | ⟨_, .identifier x⟩, L, h => ⟨x, rfl, isWritable_name h⟩
  | ⟨_, .literal v raw⟩, L, h => by
    rw [literalText_eq]
    exact literal_hasText h
  | ⟨_, .raw t i⟩, L, h => by
    rw [expressionText, renderRaw_negative h]
    exact ⟨t, rfl, isWritable_of_any h⟩
  | ⟨_, .member o p computed⟩, L, h => by
    rw [plainExpression] at h
    simp only [Bool.and_eq_true, Bool.or_eq_true] at h
    obtain ⟨t, ht, hw⟩ := expression_hasText L h.1.2
    have hword (hp : isPlainWord p = true) := isWritable_of_any hp
    have hquote : computed = true → isWritable (quote p) = true := fun hc =>
      h.2.elim And.right fun hp => isWritable_quote_of_writable (hword hp)
    rw [expressionText, ht]
    cases computed with
    | true => exact ⟨_, rfl, by simp [hw, hquote rfl]⟩
    | false => exact ⟨_, rfl, by simp [hw, hword (h.2.resolve_left nofun)]⟩
  | ⟨_, .call f as⟩, L, h => by
    rw [plainExpression] at h
    simp only [Bool.and_eq_true] at h
    obtain ⟨t, ht, hw⟩ := expression_hasText L h.1.2
    obtain ⟨ts, hts, hws⟩ := arguments_haveTexts L h.2
    rw [expressionText, ht, hts]
    exact ⟨_, rfl, by simp [hw, isWritable_joinWith (isWritable_ofString _) hws]⟩
  | ⟨_, .assignment a v⟩, L, h => by
    rw [plainExpression] at h
    simp only [Bool.and_eq_true] at h
    obtain ⟨t, ht, hw⟩ := expression_hasText L h.1.1.2
    obtain ⟨u, hu, hwu⟩ := expression_hasText L h.2
    rw [expressionText, ht, hu]
    exact ⟨_, rfl, by simp [hw, hwu]⟩
  | ⟨_, .object ps inline⟩, L, h => by
    obtain ⟨htexts, hblocks⟩ := entries_haveLines L h
    by_cases hps : ps = []
    · subst hps
      exact ⟨_, rfl, isWritable_ofString _⟩
    · rw [objectText_eq hps]
      exact literalForm_hasText (isWritable_ofString _) (isWritable_ofString _) (isWritable_ofString _) htexts hblocks
  | ⟨_, .array es inline⟩, L, h => by
    obtain ⟨htexts, hblocks⟩ := elements_haveLines L h
    by_cases hes : es = []
    · subst hes
      exact ⟨_, rfl, isWritable_ofString _⟩
    · rw [arrayText_eq hes]
      exact literalForm_hasText (isWritable_ofString _) (isWritable_ofString _) rfl htexts hblocks
  | ⟨_, .access a⟩, L, h => access_hasText h

theorem arguments_haveTexts : ∀ {as : List Node} (L : Nat), plainArguments as = true → HaveTexts (expressionTexts L as)
  | [], L, _ => ⟨[], rfl, nofun⟩
  | n :: as, L, h => by
    rw [plainArguments] at h
    simp only [Bool.and_eq_true] at h
    obtain ⟨t, ht, hw⟩ := expression_hasText L h.1.2
    obtain ⟨ts, hts, hws⟩ := arguments_haveTexts L h.2
    rw [expressionTexts, ht, hts]
    exact ⟨_, rfl, List.forall_mem_cons.2 ⟨hw, hws⟩⟩

theorem entries_haveLines : ∀ {ps : List Node} (L : Nat), plainEntries ps = true →
    HaveTexts (entryTexts L ps) ∧ HaveLines (entryBlocks L ps)
  | [], L, _ => ⟨⟨[], rfl, nofun⟩, ⟨[], rfl, nofun⟩⟩
  | ⟨l, .property k ⟨m, .identifier x⟩ true⟩ :: ps, L, h => by
    rw [plainEntries] at h
    simp only [Bool.and_eq_true] at h
    obtain ⟨⟨ts, hts, hws⟩, ⟨bs, hbs, hwbs⟩⟩ := entries_haveLines L h.2
    have hk := isWritable_name h.1.1.1.2
    constructor
    · rw [entryTexts, hts]
      exact ⟨_, rfl, List.forall_mem_cons.2 ⟨hk, hws⟩⟩
    · rw [entryBlocks, hbs]
      exact ⟨_, rfl, List.forall_mem_cons.2
        ⟨isWritable_entryLines (isWritable_indentation _) hk rfl h.1.1.1.1, hwbs⟩⟩
  | ⟨l, .property k v false⟩ :: ps, L, h => by
    rw [plainEntries] at h
    simp only [Bool.and_eq_true] at h
    obtain ⟨⟨ts, hts, hws⟩, ⟨bs, hbs, hwbs⟩⟩ := entries_haveLines L h.2
    obtain ⟨t, ht, hw⟩ := expression_hasText L h.1.2
    obtain ⟨u, hu, hwu⟩ := expression_hasText (L + 1) h.1.2
    have hk := isWritable_key h.1.1.1.1.2
    constructor
    · rw [entryTexts, ht, hts]
      exact ⟨_, rfl, List.forall_mem_cons.2 ⟨by simp [hk, hw], hws⟩⟩
    · rw [entryBlocks, hu, hbs]
      exact ⟨_, rfl, List.forall_mem_cons.2
        ⟨isWritable_entryLines (isWritable_indentation _) (by simp [hk, hwu]) rfl h.1.1.1.1.1, hwbs⟩⟩

theorem elements_haveLines : ∀ {es : List Node} (L : Nat), plainElements es = true →
    HaveTexts (expressionTexts L es) ∧ HaveLines (elementBlocks L es)
  | [], L, _ => ⟨⟨[], rfl, nofun⟩, ⟨[], rfl, nofun⟩⟩
  | n :: es, L, h => by
    rw [plainElements] at h
    simp only [Bool.and_eq_true] at h
    obtain ⟨⟨ts, hts, hws⟩, ⟨bs, hbs, hwbs⟩⟩ := elements_haveLines L h.2
    obtain ⟨t, ht, hw⟩ := expression_hasText L h.1.2
    obtain ⟨u, hu, hwu⟩ := expression_hasText (L + 1) h.1.2
    have hn := isComment_of_plain h.1.2
    constructor
    · rw [expressionTexts, ht, hts]
      exact ⟨_, rfl, List.forall_mem_cons.2 ⟨hw, hws⟩⟩
    · rw [elementBlocks_eq, literalBlocks, rowText_of_ne hn, hu, ← elementBlocks_eq, hbs]
      exact ⟨_, rfl, List.forall_mem_cons.2
        ⟨isWritable_entryLines (isWritable_indentation _) hwu hn h.1.1, hwbs⟩⟩

end

/-! ## Statements -/

theorem declarators_haveTexts : ∀ {ds : List (DeclaratorOf Node)}, plainDeclarators ds = true → HaveTexts (declaratorTexts L ds)
  | [], _ => ⟨[], rfl, nofun⟩
  | ⟨_, x, none⟩ :: ds, h => by
    rw [plainDeclarators] at h
    simp only [Bool.and_eq_true] at h
    obtain ⟨ts, hts, hws⟩ := declarators_haveTexts h.2
    rw [declaratorTexts, hts]
    exact ⟨_, rfl, List.forall_mem_cons.2 ⟨isWritable_name h.1.1.2, hws⟩⟩
  | ⟨_, x, some e⟩ :: ds, h => by
    rw [plainDeclarators] at h
    simp only [Bool.and_eq_true, Option.all_some] at h
    obtain ⟨ts, hts, hws⟩ := declarators_haveTexts h.2
    obtain ⟨t, ht, hw⟩ := expression_hasText L h.1.2.2
    rw [declaratorTexts, ht, hts]
    exact ⟨_, rfl, List.forall_mem_cons.2 ⟨by simp [isWritable_name h.1.1.2, hw], hws⟩⟩

theorem isWritable_functionHead {name : Option Text} {params : List Text} (isAsync : Bool) (hname : name.all isPlainName = true)
    (hparams : params.all isPlainName = true) : isWritable (functionHead name params isAsync) = true := by
  have hps : isWritable (Text.joinWith ", " params) = true :=
    isWritable_joinWith (isWritable_ofString _) fun t ht => isWritable_name (List.all_eq_true.1 hparams t ht)
  unfold functionHead
  simp only [isWritable_append, Bool.and_eq_true]
  refine ⟨⟨⟨⟨⟨isWritable_ofString _, isWritable_ofString _⟩, ?_⟩, isWritable_ofString _⟩, hps⟩, isWritable_ofString _⟩
  rcases name with _ | _ | ⟨c, r⟩
  · exact isWritable_ofString _
  · exact isWritable_ofString _
  · have hw : isWritable (c :: r) = true := isWritable_name hname
    rw [isWritable_append, hw]
    rfl

theorem isWritable_statementLines {l : Layout} (ht : isWritable t = true) (hl : l.isPlain = true) :
    ∀ u ∈ statementLines L l t, isWritable u = true := by
  rw [Layout.isPlain, Bool.and_eq_true] at hl
  have hlines : statementLines L l t = l.comments.map (fun c => indentation L ++ c.render) ++
      [indentation L ++ withTrailing t l.trailing] := by
    obtain ⟨comments, trailing, blank⟩ := l
    cases trailing <;> rfl
  rw [hlines]
  intro u hu
  rcases List.mem_append.1 hu with h | h
  · exact isWritable_comments (isWritable_indentation L) hl.1 u h
  · rw [List.mem_singleton.1 h]
    simp [isWritable_withTrailing ht hl.2]

theorem Layout.isPlain_of_bare {l : Layout} (h : l.isBare = true) : l.isPlain = true := by
  rw [Layout.isBare, Bool.and_eq_true, List.isEmpty_iff, Option.isNone_iff_eq_none] at h
  rw [Layout.isPlain, h.1, h.2]
  rfl

mutual

theorem statement_hasText : ∀ {n : Node} (L : Nat), plainStatement n = true → HasText (statementText L n)
  | ⟨l, .function f⟩, L, h => by
    rw [plainStatement] at h
    simp only [Bool.and_eq_true] at h
    exact function_hasText L h.2
  | ⟨_, .variables kind ds⟩, L, h => by
    rw [plainStatement] at h
    simp only [Bool.and_eq_true, Bool.or_eq_true, beq_iff_eq] at h
    obtain ⟨ts, hts, hws⟩ := declarators_haveTexts (L := L) h.2
    have hkind : isWritable kind = true := by
      rcases h.1.1 with (rfl | rfl) | rfl <;> exact isWritable_ofString _
    rw [statementText, hts]
    exact ⟨_, rfl, by simp [hkind, isWritable_joinWith (isWritable_ofString _) hws]⟩
  | ⟨_, .expression e⟩, L, h => by
    rw [plainStatement] at h
    simp only [Bool.and_eq_true] at h
    obtain ⟨t, ht, hw⟩ := expression_hasText L h.2
    rw [statementText, ht]
    exact ⟨_, rfl, by simp [hw]⟩
  | ⟨_, .returns none⟩, L, _ => ⟨_, rfl, isWritable_ofString _⟩
  | ⟨_, .returns (some e)⟩, L, h => by
    rw [plainStatement] at h
    simp only [Bool.and_eq_true] at h
    obtain ⟨t, ht, hw⟩ := expression_hasText L h.2
    rw [statementText, ht]
    exact ⟨_, rfl, by simp [hw]⟩
  | ⟨_, .imports x source⟩, L, h => by
    rw [plainStatement] at h
    simp only [Bool.and_eq_true] at h
    obtain ⟨t, ht, hw⟩ := expression_hasText L h.2
    rw [statementText, ht]
    exact ⟨_, rfl, by simp [isWritable_name h.1.1.1, hw]⟩
  | ⟨l, .exportDefault d⟩, L, h => by
    rw [plainStatement] at h
    simp only [Bool.and_eq_true] at h
    obtain ⟨t, ht, hw⟩ := exported_hasText L h.2
    rw [statementText, ht]
    obtain ⟨m, s⟩ := d
    cases s <;> exact ⟨_, rfl, by simp [hw]⟩

theorem exported_hasText : ∀ {l : Layout} {d : Node} (L : Nat), plainExported l d = true → HasText (expressionText L d)
  | l, ⟨m, s⟩, L, h => by
    cases s with
    | function f =>
      rw [plainExported] at h
      simp only [Bool.and_eq_true] at h
      exact function_hasText L h.2
    | _ => exact expression_hasText L h

theorem function_hasText : ∀ {f : FunctionOf Node} (L : Nat), plainFunction f = true → HasText (functionText L f)
  | ⟨name, params, body, isAsync⟩, L, h => by
    rw [plainFunction] at h
    simp only [Bool.and_eq_true] at h
    obtain ⟨ls, hls, hws⟩ := statements_haveTexts (L + 1) none h.2
    have hhead := isWritable_functionHead isAsync h.1.1 h.1.2
    cases body with
    | nil => exact ⟨_, rfl, by simp [hhead]⟩
    | cons n body =>
      rw [functionText, hls]
      exact ⟨_, rfl, by simp [hhead, isWritable_joinWith (isWritable_ofString _) hws]⟩

theorem statements_haveTexts : ∀ {ns : List Node} (L : Nat) (previous : Option Node), plainStatements ns = true →
    HaveTexts (blockLines L previous ns)
  | [], L, _, _ => ⟨[], rfl, nofun⟩
  | ⟨l, s⟩ :: ns, L, previous, h => by
    have hnode : HasText (statementText L ⟨l, s⟩) ∧ l.isPlain = true ∧ plainStatements ns = true := by
      by_cases hc : (Node.mk l s).isComment = true
      · obtain ⟨c, rfl⟩ : ∃ c, s = .comment c := by cases s <;> first | exact ⟨_, rfl⟩ | cases hc
        obtain ⟨⟨hsound, hbare⟩, -, hns⟩ := plainStatements_comment h
        exact ⟨⟨_, rfl, isWritable_comment hsound⟩, Layout.isPlain_of_bare hbare, hns⟩
      · rw [plainStatements_cons (by simpa using hc), Bool.and_eq_true, Bool.and_eq_true] at h
        exact ⟨statement_hasText L h.1.2, h.1.1, h.2⟩
    obtain ⟨⟨t, ht, hw⟩, hl, hns⟩ := hnode
    obtain ⟨ts, hts, hws⟩ := statements_haveTexts L (some ⟨l, s⟩) hns
    have hlines := isWritable_statementLines (L := L) hw hl
    rw [blockLines, ht, hts]
    refine ⟨_, rfl, ?_⟩
    intro u hu
    rcases List.mem_append.1 hu with hu | hu
    · rcases List.mem_append.1 hu with hu | hu
      · split at hu
        · rw [List.mem_singleton.1 hu]
          rfl
        · cases hu
      · exact hlines u hu
    · exact hws u hu

end

/-- **A plain program has a text**, and a file can hold it. -/
theorem render_of_plain {p : Program} (hp : p.isPlain = true) : ∃ cs, p.render = .ok (Text.ofChars cs) := by
  obtain ⟨ls, hls, hws⟩ := statements_haveTexts 0 none hp
  obtain ⟨cs, hcs⟩ := isWritable_iff.1 (isWritable_linesText hws)
  refine ⟨cs, ?_⟩
  rw [render_eq, hls, ← hcs]
  rfl

end ApiRoutes.Script
