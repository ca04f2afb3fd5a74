import ApiRoutes.Proofs.Script.Brackets
/-!
# Reading entries

The entries of objects and the elements of arrays are read back, and with them every plain expression
(`cover_reads`): the grammar of a level reads all expressions with fewer characters than that.
-/
namespace ApiRoutes.Script

open Recogniser Grammar

/-! ## Keys -/

/-- The tokens that keys are written as, and their kinds. -/
inductive KeyToken (k : Text) (ks : List Char) : Kind → Prop
  | word (hk : k = Text.ofChars ks) (h : isWord ks = true) : KeyToken k ks .propertyName
  | string (hlen : stringLength? ks = some ks.length) (hval : unquote (Text.ofChars ks) = .ok k) : KeyToken k ks .string

theorem keyToken_of_plain {k : Text} {ks : List Char} (h : isPlainKey k = true) (hks : propertyKey k = Text.ofChars ks) :
    ∃ kind, KeyToken k ks kind := by
  rw [propertyKey] at hks
  split at hks
  · rename_i hi
    subst hks
    have := isPlainWord_of_identifier hi h
    rw [isPlainWord, Text.toChars?_ofChars] at this
    exact ⟨_, .word rfl this⟩
  · exact ⟨_, .string (stringLength?_quote hks) (hks ▸ unquote_quote k)⟩

section

variable {g : Grammar} {N L : Nat} {p q : Progress} {before : List Concrete} {c : Cursor} {k : Text} {ks cs r : List Char}
  {kind : Kind}

theorem KeyToken.begins (h : KeyToken k ks kind) : Begins ks := by
  cases h with
  | word _ h => exact begins_word h
  | string h => exact begins_string h

theorem KeyToken.signAt_eq (h : KeyToken k ks kind) (r : List Char) : signAt (ks ++ r) = "" := by
  cases h with
  | word _ h =>
    obtain ⟨ch, ds, rfl, hch, -⟩ := isWord_iff.1 h
    exact signAt_eq_empty (not_mem_signHeads hch)
  | string h =>
    obtain ⟨ch, ds, rfl, hq⟩ := quote_of_stringLength? h
    rcases hq with rfl | rfl <;> exact signAt_eq_empty (by decide)

/-- **A key is read.** -/
theorem key_reads (h : KeyToken k ks kind) (ha : Ahead p before c) (hc : c.rest = ks ++ r) (hr : endsWord r = true) :
    Reads (key g) p (tokenPiece before kind c ks) ⟨c.past ks, true⟩ := by
  cases h with
  | word _ hw =>
    have hread := anyWord_reads ha hc hw hr .propertyName
    obtain ⟨ch, ds, rfl, hch, hd, -⟩ := isWord_iff.1 hw
    have hne {d : Char} (h : isWordPart d = false) : ch ≠ d := fun e => by rw [e, h] at hch; cases hch
    have hquote : (ch == '\'' || ch == '"') = false := by
      rw [beq_eq_false_iff_ne.2 (hne (by decide)), beq_eq_false_iff_ne.2 (hne (by decide))]
      rfl
    have hpoint : (ch == '.') = false := beq_eq_false_iff_ne.2 (hne (by decide))
    refine Reads.bind ha.charsAhead ?_
    rw [hc, List.cons_append]
    split <;> rename_i heq <;> cases heq
    iterate 2 exact absurd rfl (hne (by decide))
    exact .ite_not hquote (.ite_not (by rw [hd, hpoint]; rfl) hread)
  | string hlen =>
    have hread := string_reads ha hc hlen
    obtain ⟨ch, ds, rfl, hq⟩ := quote_of_stringLength? hlen
    refine Reads.bind ha.charsAhead ?_
    rw [hc, List.cons_append]
    rcases hq with rfl | rfl
    · exact .ite rfl hread
    · exact .ite rfl hread

/-- The word that comes next, and the sign after it. -/
theorem wordThen_sign (ha : Ahead p before c) {ch : Char} {gap s : List Char} (hch : isTokenStart ch = true)
    (hgap : gap = [] ∨ gap = [' ']) (hks : isWord ks = true) (hw : endsWord (gap ++ ch :: s) = true)
    (hc : c.rest = ks ++ (gap ++ ch :: s)) : Reads wordThen p (String.ofList ks, ch :: s) p := by
  have hwhite : gap.all isGap = true := by rcases hgap with rfl | rfl <;> rfl
  refine ha.wordThen (by rw [hc, wordAt_past hks hw]) ?_
  have hskip : (c.skip (String.ofList ks).length).rest = Interlude.chars [] ++ (gap ++ ch :: s) := by
    rw [String.length_ofList]
    exact Cursor.rest_past hc
  rw [skipGaps_eq false hwhite (startsToken_cons hch s) (.nil _) hskip (Nat.zero_lt_succ _)]
  exact Cursor.rest_past hskip

/-- No word stands before the name of a method. -/
theorem no_modifiers {w : String} {ds : List Char} (ha : Ahead p before c) (hs : signAt c.rest = "")
    (hthen : Reads wordThen p (w, ds) p)
    (hno : w = "" ∨ ∃ ch s, ds = ch :: s ∧ ch ∈ [':', ',', '\x7d']) : Reads (many seesModifier modifier) p [] p := by
  refine many_nil ((ha.seesSign hs "*").bind (.ite_not (by decide) (hthen.bind ?_)))
  have hfalse : (modifierWords.contains w && !(ds.head?.all fun c => ['(', ':', ',', '\x7d', '=', ';'].contains c)) = false := by
    rcases hno with rfl | ⟨ch, s, rfl, hch⟩
    · rfl
    · simp only [List.mem_cons, List.not_mem_nil, or_false] at hch
      rcases hch with rfl | rfl | rfl <;> exact Bool.and_false _
  exact hfalse ▸ .pure _ p

/-! ## Entries -/

theorem entry_shorthand (hk : isPlainName (Text.ofChars cs) = true) (ha : Ahead p before c) (hc : c.rest = cs ++ r)
    (hr : EndsItem '\x7d' r) : Reads (entry g) p
      { piece := (tokenPiece before .identifier c cs).withKind .shorthand, isBinding := true } ⟨c.past cs, true⟩ := by
  obtain ⟨hword, hname, -⟩ := isPlainName_ofChars hk
  obtain ⟨ch, hch, gap, s, rfl, hgap, hs⟩ : ∃ ch, (ch = ',' ∨ ch = '\x7d') ∧ Meets ch r := by
    rcases hr with h | h
    · exact ⟨',', .inl rfl, h⟩
    · exact ⟨'\x7d', .inr rfl, h⟩
  have hfollow : ch ∈ followers := by rcases hch with rfl | rfl <;> decide
  have hfollows : Follows (gap ++ ch :: s) := ⟨ch, hfollow, gap, s, rfl, hgap, hs⟩
  have hthen : Reads wordThen p (String.ofList cs, ch :: s) p :=
    wordThen_sign ha (by rcases hch with rfl | rfl <;> rfl) hgap hword hfollows.endsWord hc
  have hsign : signAt c.rest = "" := by
    rw [hc]
    exact (KeyToken.word rfl hword).signAt_eq _
  have hmod := no_modifiers ha hsign hthen (.inr ⟨ch, s, rfl, by rcases hch with rfl | rfl <;> decide⟩)
  have hread := name_reads ha hc hword hname hfollows.endsWord
  have hequal : Reads (seesSign "=") ⟨c.past cs, true⟩ false ⟨c.past cs, true⟩ := by
    obtain ⟨d, s', hd, -, hs'⟩ := Meets.ahead ⟨gap, s, rfl, hgap, hs⟩ hfollow (p := ⟨c.past cs, true⟩) (Cursor.rest_past hc)
    have := hd.seesSign hs' "="
    rwa [show (String.singleton ch == "=") = false by rcases hch with rfl | rfl <;> decide] at this
  have hends : (!(String.ofList cs).isEmpty && (signAt (ch :: s) == "," || signAt (ch :: s) == "\x7d" || signAt (ch :: s) == "=")) = true := by
    obtain ⟨d, ds, rfl, -⟩ := isWord_iff.1 hword
    have hne : (String.ofList (d :: ds)).isEmpty = false := by rw [← Bool.not_eq_true, String.isEmpty_iff]; simp
    rw [hne, hs]
    rcases hch with rfl | rfl <;> decide
  have hshorthand : Reads (shorthand g) p { piece := (tokenPiece before .identifier c cs).withKind .shorthand, isBinding := true }
      ⟨c.past cs, true⟩ := hread.bind (hequal.bind (.ite_not rfl (.pure _ _)))
  refine (ha.seesSign hsign _).bind (.ite_not (by decide) (hmod.bind (.ite_not rfl (hthen.bind ?_))))
  exact .ite hends hshorthand

/-- **A shorthand entry is read back.** -/
theorem shorthand_reads {l m : Layout} (hk : isPlainName (Text.ofChars cs) = true) (hm : m.isBare = true) :
    ReadsItem '\x7d' (entry g) (·.piece) (·.refusal = none) Prod.snd (ReadsBack readEntry (entryText L))
      (⟨l, .property (Text.ofChars cs) ⟨m, .identifier (Text.ofChars cs)⟩ true⟩, cs) := by
  refine ⟨begins_word (isPlainName_ofChars hk).1, fun {p before c r} ha hc hr => ?_⟩
  change c.rest = cs ++ r at hc
  have hback : ReadsBack readEntry (entryText L) (⟨l, .property (Text.ofChars cs) ⟨m, .identifier (Text.ofChars cs)⟩ true⟩, cs)
      (.node .shorthand none ⟨c, c.past cs⟩ []) := by
    refine ⟨.property (Text.ofChars cs) (.ofShape (.identifier (Text.ofChars cs))) true, ?_, ?_, rfl⟩
    · change Except.ok (Node.ofShape (.property (Span.text ⟨c, c.past cs⟩) (.ofShape (.identifier (Span.text ⟨c, c.past cs⟩))) true)) = _
      rw [Span.text_past hc]
    · exact .property (Node.readsAs_of_bare hm (.identifier _))
  exact ⟨_, _, entry_shorthand hk ha hc hr, rfl, rfl, rfl, rfl, hback⟩

/-- The tree of a pair. -/
def pairTree (kind : Kind) (c : Cursor) (ks : List Char) (t : Concrete) : Concrete :=
  .node .pair none ⟨c, t.span.stop⟩
    [.node kind (some .key) ⟨c, c.past ks⟩ [], signTree ':' (c.past ks), t.withRole .value]

theorem entry_pair (hg : g.ReadsExpressions N) {v : Node} {vs : List Char} (hk : KeyToken k ks kind)
    (hv : plainExpression v = true) (hvs : expressionText L v = .ok (Text.ofChars vs)) (hN : vs.length < N)
    (ha : Ahead p before c) (hc : c.rest = ks ++ (':' :: ' ' :: vs ++ r)) (hr : Closes r) :
    ∃ cov t, Reads (entry g) p cov ⟨c.past (ks ++ (':' :: ' ' :: vs)), true⟩ ∧
      cov.piece = ⟨before, some (pairTree kind c ks t)⟩ ∧ cov.refusal = none ∧
      t.Means (c.past (ks ++ [':', ' '])) vs L v := by
  have hsign : signAt c.rest = "" := by rw [hc, hk.signAt_eq]
  obtain ⟨w, ds, hthen, hw⟩ : ∃ w ds, Reads wordThen p (w, ds) p ∧ (w = "" ∨ ∃ s, ds = ':' :: ' ' :: s) := by
    cases hk with
    | word _ h => exact ⟨_, _, wordThen_sign ha rfl (.inl rfl) h rfl hc, .inr ⟨_, rfl⟩⟩
    | string h =>
      obtain ⟨ch, ds, rfl, hq⟩ := quote_of_stringLength? h
      refine ⟨_, _, ha.wordThen ?_ rfl, .inl rfl⟩
      rw [hc]
      rcases hq with rfl | rfl <;> exact wordAt_eq_empty (.inl (by decide)) (by decide)
  have hmod := no_modifiers ha hsign hthen (hw.imp_right fun ⟨s, hs⟩ => ⟨':', _, hs, by decide⟩)
  have hpair : (!w.isEmpty && (signAt ds == "," || signAt ds == "\x7d" || signAt ds == "=")) = false := by
    rcases hw with rfl | ⟨s, rfl⟩
    · rfl
    · rw [show signAt (':' :: ' ' :: s) = ":" from rfl]
      exact Bool.and_false _
  have hkey := key_reads (g := g) hk ha hc rfl
  have hcolon : (c.past ks).rest = [':'] ++ (' ' :: vs ++ r) := Cursor.rest_past hc
  have hahead : Ahead ⟨c.past ks, true⟩ [] (c.past ks) := ahead_here (by rw [hcolon]; exact startsToken_cons rfl _)
  have hs : signAt (c.past ks).rest = ":" := by rw [hcolon]; rfl
  have hgap : ((c.past ks).past [':']).rest = [' '] ++ (vs ++ r) := Cursor.rest_past hcolon
  have hvalue := ahead_gap (p := ⟨(c.past ks).past [':'], false⟩) hgap rfl (begins_of_plain hv hvs r).1
  obtain ⟨cov, t, hread, hstands, hmeans⟩ := hg hv hvs hN hvalue (Cursor.rest_past hgap) hr
  have hplace : ((c.past ks).past [':']).past [' '] = c.past (ks ++ [':', ' ']) := by
    rw [Cursor.past_append]
    rfl
  have hend : (((c.past ks).past [':']).past [' ']).past vs = c.past (ks ++ (':' :: ' ' :: vs)) := by
    rw [Cursor.past_append]
    rfl
  change Reads g.cover _ cov ⟨(((c.past ks).past [':']).past [' ']).past vs, true⟩ at hread
  change t.Means (((c.past ks).past [':']).past [' ']) vs L v at hmeans
  rw [hend] at hread
  rw [hplace] at hmeans
  refine ⟨{ cov with piece := ⟨before, some (pairTree kind c ks t)⟩ }, t, ?_, rfl, hstands.refusal, hmeans⟩
  have hlast : Reads (do
      let colon ← expectSign ":"
      let v ← g.cover
      return { v with piece := .node .pair [(tokenPiece before kind c ks).inRole .key, colon, v.piece.inRole .value] })
      ⟨c.past ks, true⟩ { cov with piece := ⟨before, some (pairTree kind c ks t)⟩ } ⟨c.past (ks ++ (':' :: ' ' :: vs)), true⟩ := by
    refine (sign_reads ':' hahead hs).bind (hread.bind ?_)
    rw [hstands.piece]
    obtain ⟨k', role, sp, ts⟩ := t
    exact .pure _ _
  refine (ha.seesSign hsign _).bind (.ite_not (by decide) (hmod.bind (.ite_not rfl (hthen.bind (.ite_not hpair ?_)))))
  exact hkey.bind ((hahead.seesSign hs _).bind (.ite rfl hlast))

/-- **A pair is read back.** -/
theorem pair_reads (hg : g.ReadsExpressions N) {l : Layout} {v : Node} {vs : List Char} (hk : KeyToken k ks kind)
    (hkey : propertyKey k = Text.ofChars ks) (hbare : v.isBare = true) (hv : plainExpression v = true)
    (hvs : expressionText L v = .ok (Text.ofChars vs)) (hN : vs.length < N) :
    ReadsItem '\x7d' (entry g) (·.piece) (·.refusal = none) Prod.snd (ReadsBack readEntry (entryText L))
      (⟨l, .property k v false⟩, ks ++ (':' :: ' ' :: vs)) := by
  refine ⟨hk.begins.append _, fun {p before c r} ha hc hr => ?_⟩
  change c.rest = ks ++ (':' :: ' ' :: vs) ++ r at hc
  rw [List.append_assoc] at hc
  obtain ⟨cov, t, hread, hpiece, hrefusal, hspan, -, -, s, hs, hsame, htext⟩ :=
    entry_pair hg hk hv hvs hN ha hc (hr.closes (by decide))
  have hend : t.span.stop = c.past (ks ++ (':' :: ' ' :: vs)) := by
    rw [hspan]
    exact (Cursor.past_append c (ks ++ [':', ' ']) vs).symm.trans (by rw [List.append_assoc]; rfl)
  have hkeyOf : keyOf (.node kind (some .key) ⟨c, c.past ks⟩ []) = .ok k := by
    cases hk with
    | word hk => exact congrArg Except.ok ((Span.text_past hc).trans hk.symm)
    | string _ hval =>
      have hstring := stringOf_eq (t := .node .string (some .key) ⟨c, c.past ks⟩ []) rfl (Span.text_past hc) hval
      rw [keyOf]
      change (do return (← stringOf _).1) = _
      rw [hstring]
      rfl
  refine ⟨cov, pairTree kind c ks t, hread, hpiece, hrefusal, by rw [pairTree, hend]; rfl, rfl,
    .property k (.ofShape s) false, ?_, .property (Node.readsAs_of_bare hbare hsame), ?_⟩
  · obtain ⟨k', role, sp, ts⟩ := t
    rw [readExpression_role k' role (some .value)] at hs
    rw [pairTree, readEntry]
    change orKeep _ (do
      let key ← keyOf (.node kind (some .key) ⟨c, c.past ks⟩ [])
      return .property key (← readExpression (.node k' (some .value) sp ts)) false) = _
    rw [hkeyOf, hs]
    rfl
  · rw [Node.ofShape, entryText, hkey, htext, Text.ofChars_append]
    exact congrArg Except.ok (List.append_assoc _ _ _)

end

/-! ## Entries among others -/

theorem plainEntries_cons {n : Node} {ps : List Node} (h : plainEntries (n :: ps) = true) :
    plainEntries [n] = true ∧ plainEntries ps = true := by
  obtain ⟨l, s⟩ := n
  cases s with
  | property k v shorthand =>
    obtain ⟨m, s⟩ := v
    cases shorthand with
    | false =>
      rw [plainEntries, Bool.and_eq_true] at h
      rw [plainEntries, h.1]
      exact ⟨rfl, h.2⟩
    | true =>
      cases s with
      | identifier x =>
        rw [plainEntries, Bool.and_eq_true] at h
        rw [plainEntries, h.1]
        exact ⟨rfl, h.2⟩
      | _ => cases h
  | _ => cases h

theorem plainElements_cons {n : Node} {es : List Node} (h : plainElements (n :: es) = true) :
    plainElements [n] = true ∧ plainElements es = true := by
  rw [plainElements, Bool.and_eq_true] at h
  rw [plainElements, h.1]
  exact ⟨rfl, h.2⟩

theorem plain_mem {f : List Node → Bool} (hcons : ∀ {n ns}, f (n :: ns) = true → f [n] = true ∧ f ns = true) :
    ∀ {ns : List Node}, f ns = true → ∀ n ∈ ns, f [n] = true
  | [], _ => nofun
  | _ :: _, h => List.forall_mem_cons.2 ⟨(hcons h).1, plain_mem hcons (hcons h).2⟩

/-- An entry is no comment, and its comments end where their texts do. -/
theorem isPlainRow_entry {n : Node} (h : plainEntries [n] = true) : n.isComment = false ∧ n.isPlainRow = true := by
  obtain ⟨l, s⟩ := n
  cases s with
  | property k v shorthand =>
    obtain ⟨m, s⟩ := v
    cases shorthand with
    | false =>
      rw [plainEntries] at h
      simp only [Bool.and_eq_true] at h
      exact ⟨rfl, h.1.1.1.1.1⟩
    | true =>
      cases s with
      | identifier x =>
        rw [plainEntries] at h
        simp only [Bool.and_eq_true] at h
        exact ⟨rfl, h.1.1.1.1⟩
      | _ => cases h
  | _ => cases h

theorem isPlainRow_element {n : Node} (h : plainElements [n] = true) : n.isComment = false ∧ n.isPlainRow = true := by
  rw [plainElements, Bool.and_eq_true, Bool.and_eq_true] at h
  obtain ⟨⟨hl, hn⟩, -⟩ := h
  obtain ⟨l, s⟩ := n
  cases s <;> first | exact ⟨rfl, hl⟩ | cases hn

theorem plain_rows {f : List Node → Bool} (hrow : ∀ {n}, f [n] = true → n.isComment = false ∧ n.isPlainRow = true)
    {ns : List Node} (h : ∀ n ∈ ns, f [n] = true) :
    ns.all Node.isPlainRow = true ∧ ∀ n ∈ ns, n.isComment = false :=
  ⟨List.all_eq_true.2 fun n hn => (hrow (h n hn)).2, fun n hn => (hrow (h n hn)).1⟩

section

variable {g : Grammar} {N L : Nat} {p : Progress} {before : List Concrete} {c : Cursor} {n : Node} {cs r : List Char}

/-- **An entry of an object is read back.** -/
theorem entry_reads (hg : g.ReadsExpressions N) (hn : plainEntries [n] = true)
    (ht : entryText L n = .ok (Text.ofChars cs)) (hN : cs.length ≤ N) :
    ReadsItem '\x7d' (entry g) (·.piece) (·.refusal = none) Prod.snd (ReadsBack readEntry (entryText L)) (n, cs) := by
  obtain ⟨l, s⟩ := n
  cases s with
  | property k v shorthand =>
    cases shorthand with
    | false =>
      rw [plainEntries] at hn
      simp only [Bool.and_eq_true] at hn
      obtain ⟨⟨⟨⟨⟨-, hk⟩, hbare⟩, -⟩, hv⟩, -⟩ := hn
      rw [entryText] at ht
      obtain ⟨t, hvs, ht⟩ := bind_eq_ok.1 ht
      have ht : (propertyKey k ++ ": " ++ t : Text) = Text.ofChars cs := Except.ok.inj ht
      obtain ⟨x, vs, rfl, hx, rfl⟩ := Text.ofChars_of_append ht
      obtain ⟨ks, rfl, hkey⟩ := Text.ofChars_of_append_chars [':', ' '] hx
      obtain ⟨kind, hkind⟩ := keyToken_of_plain hk hkey
      rw [List.append_assoc] at hN ⊢
      have hlen : vs.length < N := by
        rw [List.length_append, List.length_append] at hN
        change ks.length + (2 + vs.length) ≤ N at hN
        omega
      exact pair_reads hg hkind hkey hbare hv hvs hlen
    | true =>
      obtain ⟨m, s⟩ := v
      cases s with
      | identifier x =>
        rw [plainEntries] at hn
        simp only [Bool.and_eq_true, beq_iff_eq] at hn
        obtain ⟨⟨⟨⟨-, hk⟩, rfl⟩, hm⟩, -⟩ := hn
        rw [entryText] at ht
        obtain rfl : x = Text.ofChars cs := Except.ok.inj ht
        exact shorthand_reads hk hm
      | _ => cases hn
  | _ => cases hn

/-- **An element of an array is read back.** -/
theorem element_reads (hg : g.ReadsExpressions N) (hn : plainElements [n] = true)
    (ht : expressionText L n = .ok (Text.ofChars cs)) (hN : cs.length < N) :
    ReadsItem ']' (item g) (·.piece) (·.refusal = none) Prod.snd (ReadsBack readExpression (expressionText L)) (n, cs) := by
  have hplain : plainExpression n = true := by
    rw [plainElements, Bool.and_eq_true, Bool.and_eq_true] at hn
    exact hn.1.2
  refine ⟨begins_of_plain hplain ht, fun ha hc hr => ?_⟩
  obtain ⟨cov, t, hread, hstands, hmeans⟩ := item_reads hg hplain ht hN ha hc (hr.closes (by decide))
  exact ⟨cov, t, hread, hstands.piece, hstands.refusal, hmeans.span, hmeans.value, hmeans.reads⟩

/-! ## Expressions -/

/-- **A plain expression is read back.** -/
theorem cover_reads (hg : g.ReadsExpressions N) (hn : plainExpression n = true)
    (ht : expressionText L n = .ok (Text.ofChars cs)) (hN : cs.length ≤ N) (ha : Ahead p before c) (hc : c.rest = cs ++ r)
    (hr : Closes r) :
    ∃ cov t, Reads (coverFrom g) p cov ⟨c.past cs, true⟩ ∧ cov.Stands before t ∧ t.Means c cs L n := by
  have hoperand (hop : n.isOperand = true) :
      ∃ cov t, Reads (coverFrom g) p cov ⟨c.past cs, true⟩ ∧ cov.Stands before t ∧ t.Means c cs L n := by
    have hstart := (leads_of_operand hop hn ht hr.follows).startsOperand
    rw [← hc] at hstart
    exact cover_of_operand hstart ha (operand_reads hg hop hn ht hN ha hc hr.follows) hc hr
  obtain ⟨l, s⟩ := n
  cases s with
  | identifier => exact hoperand rfl
  | member => exact hoperand rfl
  | call => exact hoperand rfl
  | access => exact hoperand rfl
  | literal v raw => exact literal_reads hn (literalText_eq.symm.trans ht) ha hc hr
  | raw t i =>
    rw [expressionText, renderRaw_negative hn] at ht
    obtain rfl := Except.ok.inj ht
    obtain ⟨cov, t, hread, hstands⟩ := negative_reads ha hn hc hr
    exact ⟨cov, _, hread, hstands, .negative hn hc rfl fun _ => .raw⟩
  | assignment a v =>
    obtain ⟨xs, vs, hxs, hvs, rfl⟩ := assignmentChars_ok ht
    rw [plainExpression] at hn
    simp only [Bool.and_eq_true] at hn
    obtain ⟨⟨⟨⟨htarget, hbare⟩, hplain⟩, hbare'⟩, hv⟩ := hn
    have hop : a.isOperand = true := by
      obtain ⟨l, s⟩ := a
      cases s <;> first | rfl | cases htarget
    have hfollows : Follows (' ' :: '=' :: ' ' :: vs ++ r) := ⟨'=', by decide, [' '], ' ' :: vs ++ r, rfl, .inr rfl, rfl⟩
    rw [List.append_assoc] at hc
    simp only [List.length_append, List.length_cons] at hN
    have hstart := (leads_of_operand hop hplain hxs hfollows).startsOperand
    have ha' := operand_reads hg hop hplain hxs (by omega) ha hc hfollows
    rw [← List.append_eq, List.append_eq, ← hc] at hstart
    exact assignment_reads hg hstart ha htarget hbare hbare' ha' hv hvs (by omega) hc hr
  | object ps inline =>
    rw [plainExpression] at hn
    have hall := plain_mem plainEntries_cons hn
    obtain ⟨hplain, hentries⟩ := plain_rows isPlainRow_entry hall
    refine Brackets.lawful_objects.reads_literal hplain hentries (fun {n M x} hmem hx hlen => ?_) ht ha hc hr
    exact entry_reads hg (hall n hmem) hx (Nat.le_of_lt (Nat.lt_of_lt_of_le hlen hN))
  | array es inline =>
    rw [plainExpression] at hn
    have hall := plain_mem plainElements_cons hn
    obtain ⟨hplain, hentries⟩ := plain_rows isPlainRow_element hall
    refine Brackets.lawful_arrays.reads_literal hplain hentries (fun {n M x} hmem hx hlen => ?_) ht ha hc hr
    exact element_reads hg (hall n hmem) hx (Nat.lt_of_lt_of_le hlen hN)
  | _ => cases hn

end

/-- **A level of the grammar reads all plain expressions** with fewer characters than it has levels below. -/
theorem level_readsExpressions : ∀ n, (level n).ReadsExpressions n
  | 0 => fun _ _ hN => absurd hN (Nat.not_lt_zero _)
  | n + 1 => fun hn ht hN ha hc hr => cover_reads (level_readsExpressions n) hn ht (Nat.le_of_lt_succ hN) ha hc hr

end ApiRoutes.Script
