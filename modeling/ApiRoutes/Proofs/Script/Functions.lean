import ApiRoutes.Proofs.Script.Bodies
/-!
# Reading functions

A function is read back with its parameters and its body (`function_reads`), be it a statement or exported.
-/
namespace ApiRoutes.Script

open Recogniser Grammar

/-! ## Parameters -/

section

variable {g : Grammar} {N L : Nat} {l : Layout} {p q : Progress} {before : List Concrete} {c : Cursor} {cs xs bs r : List Char}
  {ps : List (List Char)} {body : List Node}

/-- The grammar reads every plain name with fewer than `N` characters as something to bind. -/
def Grammar.ReadsNames (g : Grammar) (N : Nat) : Prop :=
  ∀ {cs r : List Char} {p : Progress} {before : List Concrete} {c : Cursor}, isPlainName (Text.ofChars cs) = true →
    cs.length < N → Ahead p before c → c.rest = cs ++ r → Closes r →
    Reads g.cover p (placeOf (tokenPiece before .identifier c cs)) ⟨c.past cs, true⟩

theorem cover_name (hcs : isPlainName (Text.ofChars cs) = true) (ha : Ahead p before c) (hc : c.rest = cs ++ r) (hr : Closes r) :
    Reads (coverFrom g) p (placeOf (tokenPiece before .identifier c cs)) ⟨c.past cs, true⟩ := by
  obtain ⟨ch, hch, hmeets⟩ := hr
  have hfollows : Follows r := Closes.follows ⟨ch, hch, hmeets⟩
  have hstart : StartsOperand c.rest := hc ▸ startsOperand_name hcs hfollows.endsWord
  refine cover_of_assigned hstart ha (assigned_reads hstart ha (primary_name ha hc hcs hfollows) .refl hc hch hmeets) hch ?_
  rwa [Cursor.rest_past hc]

theorem level_readsNames : ∀ n, (level n).ReadsNames n
  | 0 => fun _ hN => absurd hN (Nat.not_lt_zero _)
  | _ + 1 => fun hcs _ ha hc hr => cover_name hcs ha hc hr

/-- The tree of the parameters of a function. -/
def parametersTree (c : Cursor) (xs : List Char) (all : List Concrete) : Concrete :=
  .node .parameters none ⟨c, c.past ('(' :: (xs ++ [')']))⟩ (signTree '(' c :: (all ++ [signTree ')' (c.past ('(' :: xs))]))

/-- A name, or a pattern with perhaps a default. -/
def parameter (g : Grammar) : Recogniser Piece := do
  let stuck ← stuckHere
  let c ← item g
  if c.isBinding then return c.piece.withKind .other else throw stuck

/-- **Parameters are read back.** -/
theorem parameters_reads (hg : g.ReadsNames N) (hps : ∀ x ∈ ps, isPlainName (Text.ofChars x) = true)
    (hN : (joinChars ps).length < N) (ha : Ahead p before c) (hc : c.rest = '(' :: (joinChars ps ++ [')']) ++ r) :
    ∃ all, Reads (parameters g) p ⟨before, some (parametersTree c (joinChars ps) all)⟩
        ⟨c.past ('(' :: (joinChars ps ++ [')'])), true⟩ ∧
      noComments (parametersTree c (joinChars ps) all).children = .ok () ∧
      (parametersTree c (joinChars ps) all).named.map Concrete.text = ps.map Text.ofChars := by
  have hitems : ∀ x ∈ ps, ReadsItem ')' (parameter g) id (fun _ => True) id (fun x t => Text.ofChars x = t.text) x := by
    intro x hx
    have hplain := hps x hx
    have hword := (isPlainName_ofChars hplain).1
    refine ⟨begins_word hword, fun {p before c r} ha hc hr => ?_⟩
    change c.rest = x ++ r at hc
    have hlen := length_le_joinChars x hx
    obtain ⟨stuck, hstuck⟩ := ha.stuckHere
    have hsign : signAt c.rest = "" := by
      rw [hc]
      exact (KeyToken.word rfl hword).signAt_eq _
    have hitem : Reads (item g) p (placeOf (tokenPiece before .identifier c x)) ⟨c.past x, true⟩ :=
      (ha.seesSign hsign "...").bind (.ite_not rfl
        (hg hplain (Nat.lt_of_le_of_lt hlen hN) ha hc (hr.closes (by decide))))
    exact ⟨_, .node .other none ⟨c, c.past x⟩ [], hstuck.bind (hitem.bind (.ite rfl (.pure _ _))), rfl, trivial, rfl, rfl,
      (Span.text_past hc).symm⟩
  have hopen := sign_reads '(' ha (by rw [hc]; rfl)
  have hin : (c.past ['(']).rest = [] ++ (joinChars (ps.map id) ++ ([] ++ ')' :: r)) := by
    refine Cursor.rest_past ?_
    rw [hc, List.map_id]
    simp
  obtain ⟨parts, ts, b, hrun, htexts, hall, -⟩ := parts_run itemPart_reads rfl comma_reads (.inl rfl) (.inl rfl) (fun _ => rfl) hitems
    (p := ⟨c.past ['('], false⟩) hin
  rw [List.map_id] at hrun hin
  rw [List.map_id] at hall
  have hend : (c.past ('(' :: joinChars ps)).rest = [')'] ++ r := by
    rw [Cursor.past_cons]
    exact Cursor.rest_past hin
  rw [List.nil_append, ← Cursor.past_cons] at hrun
  have hclose := sign_reads (p := ⟨c.past ('(' :: joinChars ps), b⟩) ')'
    (ahead_here (by rw [hend]; exact startsToken_cons rfl r)) (by rw [hend]; rfl)
  have hkind : (signTree ')' (c.past ('(' :: joinChars ps))).kind = .token ")" := rfl
  refine ⟨parts.flatten.flatMap Piece.trees, ?_, ?_, ?_⟩
  · have hlist : Reads (listUpTo ")" (parameter g)) ⟨c.past ['('], false⟩ parts.flatten ⟨c.past ('(' :: joinChars ps), b⟩ :=
      hrun.many.bind (.pure _ _)
    rw [parametersTree, ← List.cons_append, Cursor.past_append]
    refine hopen.bind (hlist.bind (hclose.bind ?_))
    rw [node_between, List.append_nil]
    exact .pure _ _
  · rw [noComments, parametersTree, Concrete.children, List.any_cons, hall.noComments hkind]
    rfl
  · have hopen' : (signTree '(' c).isNamed = false := rfl
    rw [Concrete.named, parametersTree, Concrete.children, List.filter_cons, hopen', if_neg Bool.false_ne_true, hall.named hkind]
    have := List.forall₂_map_left_iff.2 (List.forall₂_map_right_iff.2 htexts)
    rw [List.forall₂_eq_eq_eq] at this
    exact this.symm

/-! ## Functions -/

def asyncTrees (isAsync : Bool) (c : Cursor) : List Concrete := if isAsync then [wordTree "async" c] else []

/-- The tree of a function. -/
def functionTree (isAsync : Bool) (c e d : Cursor) (xs : List Char) (params body : Concrete) : Concrete :=
  .node .functionDeclaration none ⟨c, body.span.stop⟩ (asyncTrees isAsync c ++ [wordTree "function" e,
    .node .identifier (some .name) ⟨d, d.past xs⟩ [], params.withRole .parameters, body.withRole .body])

/-- The tree of a function is read part by part. -/
theorem readFunction_tree {isAsync : Bool} {e d : Cursor} {params body : Concrete} {ts : List Text} {ms : List Node}
    (hparams : params.kind = .parameters) (hno : noComments params.children = .ok ()) (hts : params.named.map Concrete.text = ts)
    (hbody : body.kind = .block) (hms : sequence (readStatements body.children) = .ok ms) (hd : d.rest = xs ++ r) :
    readFunction (functionTree isAsync c e d xs params body) = .ok ⟨some (Text.ofChars xs), ts, ms, isAsync⟩ := by
  obtain ⟨k, role, sp, us⟩ := params
  obtain ⟨k', role', sp', us'⟩ := body
  obtain rfl : k = .parameters := hparams
  obtain rfl : k' = .block := hbody
  subst hts
  have hlist : parametersOf (functionTree isAsync c e d xs (.node .parameters role sp us) (.node .block role' sp' us')).children =
      .ok ((us.filter Concrete.isNamed).map Concrete.text) := by
    have hchild : parametersOf (functionTree isAsync c e d xs (.node .parameters role sp us) (.node .block role' sp' us')).children =
        do noComments us; return (us.filter Concrete.isNamed).map Concrete.text := by
      cases isAsync <;> rfl
    rw [hchild, show noComments us = .ok () from hno]
    rfl
  have hblock : readBodyIn (functionTree isAsync c e d xs (.node .parameters role sp us) (.node .block role' sp' us')).children =
      .ok ms := by
    cases isAsync <;> exact hms
  rw [functionTree, readFunction, functionOf]
  change parametersOf (asyncTrees isAsync c ++ _) = _ at hlist
  change readBodyIn (asyncTrees isAsync c ++ _) = _ at hblock
  rw [hlist, hblock, ← Span.text_past hd]
  cases isAsync <;> rfl

theorem BlockChars.head (h : BlockChars L body bs) : ∃ s, bs = '\x7b' :: s := by
  cases h <;> exact ⟨_, rfl⟩

/-- **A function is recognised** from its first word on. -/
theorem functionFrom_reads (head : List Piece) (hnames : g.ReadsNames N) (hstatements : g.ReadsStatements N) {e : Cursor}
    (hx : isPlainName (Text.ofChars xs) = true) (hps : ∀ x ∈ ps, isPlainName (Text.ofChars x) = true)
    (hbs : BlockChars L body bs) (hplain : plainStatements body = true) (hN : (functionChars false xs ps bs).length ≤ N)
    (ha : Ahead p before e) (he : e.rest = functionChars false xs ps bs ++ r) (hr : endsHere true r = true) :
    ∃ d params block ms, Reads (functionFrom g .functionDeclaration head) p
        (.node .functionDeclaration (head ++ [⟨before, some (wordTree "function" e)⟩,
          ⟨[], some (.node .identifier (some .name) ⟨d, d.past xs⟩ [])⟩, ⟨[], some (params.withRole .parameters)⟩,
          ⟨[], some (block.withRole .body)⟩])) ⟨e.past (functionChars false xs ps bs), false⟩ ∧
      block.span.stop = e.past (functionChars false xs ps bs) ∧ BlockRestored L body ms bs ∧
      ∀ isAsync c, readFunction (functionTree isAsync c e d xs params block) =
        .ok ⟨some (Text.ofChars xs), ps.map Text.ofChars, ms, isAsync⟩ := by
  obtain ⟨hword, hname, -⟩ := isPlainName_ofChars hx
  have hfirst : e.rest = "function".toList ++ ([' '] ++ (xs ++ ('(' :: (joinChars ps ++ [')']) ++ ([' '] ++ (bs ++ r))))) := by
    rw [he, functionChars, asyncChars]
    simp
  have hgap := Cursor.rest_past hfirst
  have hd := ahead_gap (p := ⟨e.past "function".toList, false⟩) hgap rfl (startsToken_word hword _)
  have hdrest := Cursor.rest_past hgap
  change Ahead _ [] ((e.past "function".toList).past [' ']) at hd
  generalize hplace : (e.past "function".toList).past [' '] = d at hd hdrest
  have hsign : signAt d.rest = "" := by
    rw [hdrest]
    exact (KeyToken.word rfl hword).signAt_eq _
  have hread := name_reads hd hdrest hword hname rfl
  have hparams := Cursor.rest_past hdrest
  have hopen : Ahead ⟨d.past xs, true⟩ [] (d.past xs) := ahead_here (by rw [hparams]; exact startsToken_cons rfl _)
  have hlen : (functionChars false xs ps bs).length = 9 + (xs.length + (joinChars ps).length + 3 + bs.length) := by
    simp [functionChars, asyncChars]
    omega
  obtain ⟨all, hlist, hno, hnamed⟩ := parameters_reads hnames hps (by omega) hopen hparams
  have hbgap := Cursor.rest_past hparams
  have hbahead := ahead_gap (p := ⟨(d.past xs).past ('(' :: (joinChars ps ++ [')'])), true⟩) hbgap rfl (by
    obtain ⟨s, rfl⟩ := hbs.head
    exact startsToken_cons rfl _)
  have hbrest := Cursor.rest_past hbgap
  change Ahead _ [] (((d.past xs).past ('(' :: (joinChars ps ++ [')']))).past [' ']) at hbahead
  obtain ⟨f, hf⟩ : ∃ f : Cursor, f = ((d.past xs).past ('(' :: (joinChars ps ++ [')']))).past [' '] := ⟨_, rfl⟩
  rw [← hf] at hbahead hbrest
  obtain ⟨i, all', ms, hblock, hend, hms, hrestored⟩ := block_reads hstatements hbs hplain (by omega) hbahead hbrest hr
  have hstop : f.past bs = e.past (functionChars false xs ps bs) := by
    rw [hf, ← hplace, ← Cursor.past_append, ← Cursor.past_append, ← Cursor.past_append, ← Cursor.past_append, ← Cursor.past_append]
    simp [functionChars, asyncChars]
  rw [hstop] at hblock hend
  refine ⟨d, parametersTree (d.past xs) (joinChars ps) all, blockTree f i all', ms, ?_, hend, hrestored, fun isAsync c => ?_⟩
  · refine (ha.expectWord (by rw [hfirst]; exact wordAt_past (by decide) rfl)).bind ?_
    refine (hd.sign?_none hsign (by decide)).bind ((hd.seesSign hsign "(").bind (.ite_not (by decide) ?_))
    refine hread.bind ((Reads.pure _ _).bind (hlist.bind (hblock.bind ?_)))
    rw [List.append_nil, List.append_assoc, List.append_assoc]
    exact .pure _ _
  · exact readFunction_tree rfl hno hnamed rfl hms hdrest

theorem seesNamed_reads {w : String} (hw : isWord w.toList = true) (hclass : (w == "class") = false)
    (hx : isPlainName (Text.ofChars xs) = true) (ha : Ahead p before c) (hc : c.rest = w.toList ++ ([' '] ++ (xs ++ r)))
    (hr : endsWord r = true) : Reads (seesNamed w) p true p := by
  obtain ⟨hword, hname, -⟩ := isPlainName_ofChars hx
  have hgap := Cursor.rest_past hc
  have hd := ahead_gap (p := ⟨c.past w.toList, false⟩) hgap rfl (startsToken_word hword _)
  have hdrest := Cursor.rest_past hgap
  have hsign : signAt ((c.past w.toList).past [' ']).rest = "" := by
    rw [hdrest]
    exact (KeyToken.word rfl hword).signAt_eq _
  have hfirst : wordAt c.rest = w := by rw [hc, wordAt_past hw rfl, String.ofList_toList]
  have hnext : wordAt ((c.past w.toList).past [' ']).rest = String.ofList xs := by rw [hdrest, wordAt_past hword hr]
  have hyes : (isNameWord (wordAt ((c.past w.toList).past [' ']).rest) &&
      !(w == "class" && wordAt ((c.past w.toList).past [' ']).rest == "extends")) = true := by
    rw [hnext, hname, hclass]
    rfl
  refine Reads.peeking (q := ⟨c.past w.toList, false⟩) ((ha.expectWord hfirst).bind ((hd.sign?_none hsign (by decide)).bind
    (Reads.bind hd.word ?_)))
  exact hyes ▸ .pure _ _

/-- **A function is recognised** where a declaration can stand. -/
theorem declaration?_function (hnames : g.ReadsNames N) (hstatements : g.ReadsStatements N) {isAsync : Bool}
    (hx : isPlainName (Text.ofChars xs) = true) (hps : ∀ x ∈ ps, isPlainName (Text.ofChars x) = true)
    (hbs : BlockChars L body bs) (hplain : plainStatements body = true) (hN : (functionChars isAsync xs ps bs).length ≤ N)
    (ha : Ahead p before c) (hc : c.rest = functionChars isAsync xs ps bs ++ r) (hr : endsHere true r = true) :
    ∃ t ms, Reads (declaration? g) p (some ⟨before, some t⟩) ⟨c.past (functionChars isAsync xs ps bs), false⟩ ∧
      t.kind = .functionDeclaration ∧ t.span = ⟨c, c.past (functionChars isAsync xs ps bs)⟩ ∧ BlockRestored L body ms bs ∧
      readFunction t = .ok ⟨some (Text.ofChars xs), ps.map Text.ofChars, ms, isAsync⟩ := by
  cases isAsync with
  | false =>
    obtain ⟨d, params, block, ms, hread, hend, hrestored, hfunction⟩ :=
      functionFrom_reads [] hnames hstatements hx hps hbs hplain hN ha hc hr
    obtain ⟨k, role, sp, us⟩ := block
    have hword : c.rest = "function".toList ++ ([' '] ++ (xs ++ '(' :: (joinChars ps ++ (')' :: ' ' :: bs) ++ r))) := by
      rw [hc, functionChars, asyncChars]
      simp
    have hnamed := seesNamed_reads (w := "function") (by decide) (by decide) hx ha hword rfl
    have hthen : Reads wordThen p ("function", (skipGaps false (c.rest.length + 1) (c.skip "function".length)).2.rest) p :=
      ha.wordThen (by rw [hword]; exact wordAt_past (by decide) rfl) rfl
    refine ⟨functionTree false c c d xs params (.node k role sp us), ms, ?_, rfl, by rw [functionTree, hend]; rfl, hrestored, hfunction false c⟩
    refine hthen.bind (.ite_not rfl (.ite rfl (hnamed.bind (.ite rfl (hread.bind ?_)))))
    exact .pure _ _
  | true =>
    have hfirst : c.rest = "async".toList ++ ([' '] ++ (functionChars false xs ps bs ++ r)) := by
      rw [hc, functionChars, functionChars, asyncChars, asyncChars]
      simp
    have hgap := Cursor.rest_past hfirst
    obtain ⟨e, he⟩ : ∃ e : Cursor, e = (c.past "async".toList).past [' '] := ⟨_, rfl⟩
    have hahead : Ahead ⟨c.past "async".toList, false⟩ [] e := by
      rw [he]
      exact ahead_gap hgap rfl (startsToken_cons rfl _)
    have herest : e.rest = functionChars false xs ps bs ++ r := he ▸ Cursor.rest_past hgap
    have hword : e.rest = "function".toList ++ ([' '] ++ (xs ++ '(' :: (joinChars ps ++ (')' :: ' ' :: bs) ++ r))) := by
      rw [herest, functionChars, asyncChars]
      simp
    have hasync : wordAt c.rest = "async" := by rw [hfirst]; exact wordAt_past (by decide) rfl
    have hfunction : wordAt e.rest = "function" := by rw [hword]; exact wordAt_past (by decide) rfl
    have hlen : (functionChars true xs ps bs).length = 6 + (functionChars false xs ps bs).length := by
      simp [functionChars, asyncChars]
      omega
    have hplace : e.past (functionChars false xs ps bs) = c.past (functionChars true xs ps bs) := by
      rw [he, ← Cursor.past_append, ← Cursor.past_append]
      rfl
    obtain ⟨d, params, block, ms, hread, hend, hrestored, htree⟩ :=
      functionFrom_reads [⟨before, some (wordTree "async" c)⟩] hnames hstatements hx hps hbs hplain (by omega) hahead herest hr
    rw [hplace] at hread hend
    obtain ⟨k, role, sp, us⟩ := block
    have hnamed := seesNamed_reads (w := "function") (by decide) (by decide) hx hahead hword rfl
    have hline : Reads onNewLine ⟨c.past "async".toList, false⟩ false ⟨c.past "async".toList, false⟩ := by
      have hrow : e.row = (c.past "async".toList).row := by rw [he, Cursor.row_past hgap]; rfl
      have hsame : (e.row != (c.past "async".toList).row) = false := by rw [hrow]; exact bne_self_eq_false _
      exact (Reads.get _).bind (Reads.bind hahead (hsame ▸ .pure _ _))
    have hsees : Reads seesAsyncFunction p true p :=
      Reads.peeking ((ha.seesWord hasync "async").bind (.ite rfl ((ha.expectWord hasync).bind
        ((hahead.seesWord hfunction "function").bind (hline.bind (.pure _ _))))))
    have hthen : Reads wordThen p ("async", (skipGaps false (c.rest.length + 1) (c.skip "async".length)).2.rest) p :=
      ha.wordThen hasync rfl
    have hpeek : Reads (peeking do
        let _ ← expectWord "async"
        seesNamed "function") p true p := Reads.peeking ((ha.expectWord hasync).bind hnamed)
    refine ⟨functionTree true c e d xs params (.node k role sp us), ms, ?_, rfl, by rw [functionTree, hend]; rfl, hrestored,
      htree true c⟩
    refine hthen.bind (.ite_not rfl (.ite_not rfl (.ite_not rfl (hsees.bind (.ite rfl (hpeek.bind (.ite rfl ?_)))))))
    exact (ha.expectWord hasync).bind (hread.bind (.pure _ _))

theorem functionChars_head (isAsync : Bool) (xs : List Char) (ps : List (List Char)) (bs : List Char) :
    ∃ ch s, functionChars isAsync xs ps bs = ch :: s ∧ isWordPart ch = true := by
  cases isAsync <;> exact ⟨_, _, rfl, rfl⟩

/-- **A function is read back.** -/
theorem function_reads (hnames : g.ReadsNames N) (hstatements : g.ReadsStatements N) {f : FunctionOf Node}
    (hn : plainStatement ⟨l, .function f⟩ = true) (ht : statementText L ⟨l, .function f⟩ = .ok (Text.ofChars cs))
    (hN : cs.length ≤ N) (ha : Ahead p before c) (hc : c.rest = cs ++ r) (hr : endsHere true r = true) :
    ∃ b t, Reads (statementFrom g) p ⟨before, some t⟩ ⟨c.past cs, b⟩ ∧ t.States c cs L ⟨l, .function f⟩ := by
  obtain ⟨name, params, body, isAsync⟩ := f
  rw [plainStatement, plainFunction] at hn
  simp only [Bool.and_eq_true] at hn
  obtain ⟨⟨-, hsome⟩, ⟨hname, hparams⟩, hbody⟩ := hn
  rw [statementText] at ht
  obtain ⟨xs, ps, bs, rfl, hx, rfl, hbs, rfl⟩ := functionChars_ok hsome hname ht
  have hps : ∀ x ∈ ps, isPlainName (Text.ofChars x) = true := fun x hx => List.all_eq_true.1 hparams _ (List.mem_map_of_mem hx)
  obtain ⟨t, ms, hread, hkind, hspan, ⟨hsame, hblanks, htext⟩, hfunction⟩ :=
    declaration?_function hnames hstatements hx hps hbs hbody hN ha hc hr
  obtain ⟨ch, s, hcs, hch⟩ := functionChars_head isAsync xs ps bs
  obtain ⟨k, role, sp, ts⟩ := t
  obtain rfl : k = .functionDeclaration := hkind
  refine ⟨false, _, statementFrom_declaration ha (by rw [hc, hcs]; rfl) (word_not_opening hch) hread, hspan, rfl,
    .function ⟨some (Text.ofChars xs), ps.map Text.ofChars, ms, isAsync⟩, ?_, .function hsame hblanks, rfl, ?_⟩
  · rw [readFunction] at hfunction
    rw [readStatement]
    change orKeep _ (do return Shape.function (← functionOf ts (readBodyIn ts))) = _
    rw [hfunction]
    rfl
  · rw [Node.ofShape, statementText, functionText_chars isAsync hx htext]

/-! ## Exports -/

/-- An access is read as a member of the request, or as a call of one. -/
theorem Shape.ReadsAs.of_access {a : Access} {s : Shape} (h : Shape.ReadsAs (.access a) s) :
    (∃ o p computed, s = .member o p computed) ∨ ∃ l o p computed as, s = .call ⟨l, .member o p computed⟩ as := by
  cases h with
  | access ha h =>
    obtain ⟨_, -, he⟩ | ⟨-, he⟩ | ⟨-, he⟩ := Access.expression?_cases ha
    · cases he
      cases h
      exact .inl ⟨_, _, _, rfl⟩
    · cases he
      cases h with
      | call hf _ =>
        cases hf with
        | mk _ _ hf =>
          cases hf
          exact .inr ⟨_, _, _, _, _, rfl⟩
    · cases he
      cases h
      exact .inl ⟨_, _, _, rfl⟩

/-- No function is read for an expression. -/
theorem Shape.ReadsAs.isFunction_eq {n : Node} {s : Shape} (h : n.shape.ReadsAs s) : (Node.ofShape s).isFunction = n.isFunction := by
  obtain ⟨l, s'⟩ := n
  cases h with
  | number _ _ h => cases h <;> rfl
  | access ha h => rcases (Shape.ReadsAs.access ha h).of_access with ⟨_, _, _, rfl⟩ | ⟨_, _, _, _, _, rfl⟩ <;> rfl
  | _ => rfl

theorem not_declaration {n : Node} (hn : plainExpression n = true) (ht : expressionText L n = .ok (Text.ofChars cs))
    (hr : Closes r) : wordAt (cs ++ r) ∉ declarationWords := by
  have hempty {ch : Char} {s : List Char} (h : isWordPart ch = false ∨ ch.isDigit = true) (hne : ch ≠ '\\') :
      wordAt (ch :: s) ∉ declarationWords := by
    rw [wordAt_eq_empty h hne]
    decide
  have hword {w : String} (hw : isWord w.toList = true) (hno : w ∉ declarationWords) : wordAt (w.toList ++ r) ∉ declarationWords := by
    rwa [wordAt_past hw hr.follows.endsWord, String.ofList_toList]
  have hnumeral {cs : List Char} (h : isNumeral cs = true) : wordAt (cs ++ r) ∉ declarationWords := by
    obtain ⟨d, es, rfl, hd⟩ := isNumeral_head h
    exact hempty (.inr hd) (digit_ne hd rfl)
  have hnegative {cs : List Char} (h : isNegative (Text.ofChars cs) = true) : wordAt (cs ++ r) ∉ declarationWords := by
    rw [isNegative, Text.toChars?_ofChars, Option.any_some] at h
    split at h
    · exact hempty (.inl rfl) (by decide)
    · cases h
  have hstring {cs : List Char} {k : Nat} (h : stringLength? cs = some k) : wordAt (cs ++ r) ∉ declarationWords := by
    obtain ⟨ch, ds, rfl, hq⟩ := quote_of_stringLength? h
    rcases hq with rfl | rfl <;> exact hempty (.inl (by decide)) (by decide)
  have hleads (hlead : n.isLeading = true) : wordAt (cs ++ r) ∉ declarationWords := by
    cases leads_of_leading hlead hn ht hr.follows with
    | name h hx _ hr => exact h ▸ name_not_declaration hx hr.endsWord
    | string h hch =>
      rw [h]
      rcases hch with rfl | rfl <;> exact hempty (.inl (by decide)) (by decide)
  obtain ⟨l, s⟩ := n
  cases s with
  | literal v raw =>
    cases literalToken_of_plain hn (literalText_eq.symm.trans ht) with
    | null => exact hword (w := "null") (by decide) (by decide)
    | truth b => cases b <;> exact hword (by decide) (by decide)
    | text h => exact hstring h
    | number _ h =>
      cases h with
      | numeral h => exact hnumeral h
      | negative h => exact hnegative h
      | word h => rcases h with rfl | rfl <;> exact hword (by decide) (by decide)
  | raw t i =>
    rw [expressionText, renderRaw_negative hn] at ht
    obtain rfl := Except.ok.inj ht
    exact hnegative hn
  | object ps inline =>
    obtain ⟨s, hs⟩ := objectText_begins ht
    obtain ⟨ds, rfl, -⟩ := Text.ofChars_of_chars_append ['\x7b'] hs.symm
    exact hempty (.inl rfl) (by decide)
  | array es inline =>
    obtain ⟨s, hs⟩ := arrayText_begins ht
    obtain ⟨ds, rfl, -⟩ := Text.ofChars_of_chars_append ['['] hs.symm
    exact hempty (.inl rfl) (by decide)
  | identifier => exact hleads rfl
  | member => exact hleads rfl
  | call => exact hleads rfl
  | assignment => exact hleads rfl
  | access => exact hleads rfl
  | _ => cases hn

/-- The tree of a default export, from what is exported. -/
def exportTree (c : Cursor) (role : Role) (t : Concrete) (stop : Cursor) (ending : List Concrete) : Concrete :=
  .node .exportStatement none ⟨c, stop⟩
    (wordTree "export" c :: wordTree "default" (c.past "export ".toList) :: t.withRole role :: ending)

theorem statementFrom_export {piece : Piece} (ha : Ahead p before c) (hc : c.rest = "export".toList ++ r) (hr : endsWord r = true)
    (hrun : Reads (exportStatement g []) p piece q) : Reads (statementFrom g) p piece q :=
  keyword_reads (w := "export") (by decide) (by decide) ha hc hr fun _ => hrun

/-- The words of a default export. -/
theorem exportWords_read (ha : Ahead p before c) (hc : c.rest = "export default ".toList ++ r) :
    Reads (expectWord "export") p ⟨before, some (wordTree "export" c)⟩ ⟨c.past "export".toList, false⟩ ∧
    Ahead ⟨c.past "export".toList, false⟩ [] (c.past "export ".toList) ∧
    (c.past "export ".toList).rest = "default ".toList ++ r ∧
    Reads (word? "default") ⟨c.past "export".toList, false⟩ [⟨[], some (wordTree "default" (c.past "export ".toList))⟩]
      ⟨c.past "export default".toList, false⟩ := by
  have hfirst : c.rest = "export".toList ++ ([' '] ++ ("default".toList ++ ([' '] ++ r))) := by rw [hc]; rfl
  have hgap := Cursor.rest_past hfirst
  have hd := ahead_gap (p := ⟨c.past "export".toList, false⟩) hgap rfl (startsToken_cons rfl _)
  have hdrest := Cursor.rest_past hgap
  have hdefault : wordAt ((c.past "export".toList).past [' ']).rest = "default" := by
    rw [hdrest]
    exact wordAt_past (by decide) rfl
  exact ⟨ha.expectWord (by rw [hfirst]; exact wordAt_past (by decide) rfl), hd, hdrest, hd.word?_some hdefault⟩

theorem export_ahead (hc : c.rest = "export default ".toList ++ r) (hr : StartsToken r) :
    Ahead ⟨c.past "export default".toList, false⟩ [] (c.past "export default ".toList) := by
  have hgap : (c.past "export default".toList).rest = [' '] ++ r := Cursor.rest_past hc
  exact ahead_gap (p := ⟨c.past "export default".toList, false⟩) hgap rfl hr

/-- A default export of a function is recognised when the function is. -/
theorem exportFunction_run (ha : Ahead p before c) (hc : c.rest = "export default ".toList ++ r) {t : Concrete}
    (h : Reads (declaration? g) ⟨c.past "export default".toList, false⟩ (some ⟨[], some t⟩) q) :
    Reads (exportStatement g []) p ⟨before, some (exportTree c .declaration t t.span.stop [])⟩ q := by
  obtain ⟨hword, hd, hdrest, hdefault⟩ := exportWords_read ha hc
  refine hword.bind (Reads.bind hd.charsAhead ?_)
  rw [hdrest]
  split
  · rename_i heq
    cases heq
  · rename_i heq
    cases heq
  refine hdefault.bind (h.bind ?_)
  obtain ⟨k, role, sp, ts⟩ := t
  exact .pure _ _

/-- A default export of an expression is recognised when the expression is. -/
theorem exportValue_run (ha : Ahead p before c) (hc : c.rest = "export default ".toList ++ r) {t stop : Concrete} {q' : Progress}
    (hnone : Reads (declaration? g) ⟨c.past "export default".toList, false⟩ none ⟨c.past "export default".toList, false⟩)
    (h : Reads g.expression ⟨c.past "export default".toList, false⟩ ⟨[], some t⟩ q)
    (hend : Reads (statementEnd true) q ⟨[], some stop⟩ q') :
    Reads (exportStatement g []) p ⟨before, some (exportTree c .value t stop.span.stop [stop])⟩ q' := by
  obtain ⟨hword, hd, hdrest, hdefault⟩ := exportWords_read ha hc
  refine hword.bind (Reads.bind hd.charsAhead ?_)
  rw [hdrest]
  split
  · rename_i heq
    cases heq
  · rename_i heq
    cases heq
  refine hdefault.bind (hnone.bind (.ite_not rfl (h.bind (hend.bind ?_))))
  exact .pure _ _

/-- **A default export of a function is read back.** -/
theorem exportFunction_reads (hnames : g.ReadsNames N) (hstatements : g.ReadsStatements N) {m : Layout} {f : FunctionOf Node}
    (hbare : m.isBare = true) (hn : plainExported l ⟨m, .function f⟩ = true)
    (ht : statementText L ⟨l, .exportDefault ⟨m, .function f⟩⟩ = .ok (Text.ofChars cs))
    (hN : cs.length ≤ N) (ha : Ahead p before c) (hc : c.rest = cs ++ r) (hr : endsHere true r = true) :
    ∃ b t, Reads (statementFrom g) p ⟨before, some t⟩ ⟨c.past cs, b⟩ ∧ t.States c cs L ⟨l, .exportDefault ⟨m, .function f⟩⟩ := by
  obtain ⟨name, params, body, isAsync⟩ := f
  rw [plainExported, plainFunction] at hn
  simp only [Bool.and_eq_true] at hn
  obtain ⟨⟨-, hsome⟩, ⟨hname, hparams⟩, hbody⟩ := hn
  obtain ⟨ds, hds, rfl⟩ := exportChars_ok ht
  rw [expressionText] at hds
  obtain ⟨xs, ps, bs, rfl, hx, rfl, hbs, rfl⟩ := functionChars_ok hsome hname hds
  have hps : ∀ x ∈ ps, isPlainName (Text.ofChars x) = true := fun x hx => List.all_eq_true.1 hparams _ (List.mem_map_of_mem hx)
  rw [show exportEnd ⟨m, .function ⟨some (Text.ofChars xs), ps.map Text.ofChars, body, isAsync⟩⟩ = [] from rfl, List.append_nil] at hc hN ⊢
  rw [List.append_assoc] at hc
  have he := export_ahead hc (by
    obtain ⟨ch, s, hcs, hch⟩ := functionChars_head isAsync xs ps bs
    rw [hcs]
    exact startsToken_cons (isTokenStart_wordPart hch) _)
  rw [List.length_append] at hN
  obtain ⟨t, ms, hread, hkind, hspan, ⟨hsame, hblanks, htext⟩, hfunction⟩ :=
    declaration?_function hnames hstatements hx hps hbs hbody (by omega) he (Cursor.rest_past hc) hr
  rw [← Cursor.past_append] at hread hspan
  have hrun := statementFrom_export ha hc rfl (exportFunction_run ha hc hread)
  obtain ⟨k, role, sp, ts⟩ := t
  obtain rfl : k = .functionDeclaration := hkind
  obtain rfl : sp = _ := hspan
  refine ⟨false, _, hrun, rfl, rfl, .exportDefault (.ofShape (.function ⟨some (Text.ofChars xs), ps.map Text.ofChars, ms, isAsync⟩)), ?_,
    .exportDefault (Node.readsAs_of_bare hbare (.function hsame hblanks)), rfl, ?_⟩
  · rw [readFunction] at hfunction
    change orKeep _ (do return Shape.exportDefault (.ofShape (.function (← functionOf ts (readBodyIn ts))))) = _
    rw [hfunction]
    rfl
  · rw [Node.ofShape, exportText_eq, Node.ofShape, expressionText, functionText_chars isAsync hx htext]
    change Except.ok (Text.ofChars "export default ".toList ++ (Text.ofChars (functionChars isAsync xs ps bs) ++ Text.ofChars [])) = _
    rw [← Text.ofChars_append, ← Text.ofChars_append, List.append_nil]

/-- The tree of an exported expression is read as the expression. -/
theorem readStatement_exported {t : Concrete} {d e : Cursor} {m : Node} (ht : t.kind.isValue = true) (hm : readExpression t = .ok m) :
    readStatement (exportTree c .value t d [signTree ';' e]) = .ok (.ofShape (.exportDefault m)) := by
  obtain ⟨k, role, sp, ts⟩ := t
  rw [readExpression_role k role (some .value)] at hm
  have hread : readExported .value (exportTree c .value (.node k role sp ts) d [signTree ';' e]).children = do
      return .exportDefault (← readExpression (.node k (some .value) sp ts)) := by
    cases k <;> first | rfl | cases ht
  change orKeep _ (readExported .value (exportTree c .value (.node k role sp ts) d [signTree ';' e]).children) = _
  rw [hread, hm]
  rfl

/-- **A default export of an expression is read back.** -/
theorem exportValue_reads (hg : g.ReadsExpressions N) {e : Node} (hbare : e.isBare = true) (hfunction : e.isFunction = false)
    (hn : plainExpression e = true) (ht : statementText L ⟨l, .exportDefault e⟩ = .ok (Text.ofChars cs))
    (hN : cs.length ≤ N) (ha : Ahead p before c) (hc : c.rest = cs ++ r) :
    ∃ b t, Reads (statementFrom g) p ⟨before, some t⟩ ⟨c.past cs, b⟩ ∧ t.States c cs L ⟨l, .exportDefault e⟩ := by
  obtain ⟨es, hes, rfl⟩ := exportChars_ok ht
  have hending : exportEnd e = [';'] := by rw [exportEnd, hfunction]; rfl
  rw [hending] at hc hN ⊢
  rw [List.append_assoc, List.append_assoc] at hc
  have he := export_ahead hc (begins_of_plain hn hes _).1
  have hrest := Cursor.rest_past hc
  simp only [List.length_append, List.length_cons, List.length_nil] at hN
  obtain ⟨cov, t, hcover, hstands, hmeans⟩ := hg hn hes (by omega) he hrest (closes_semicolon r)
  have hnone : Reads (declaration? g) ⟨c.past "export default".toList, false⟩ none ⟨c.past "export default".toList, false⟩ :=
    declaration?_none he (by rw [hrest]; exact not_declaration hn hes (closes_semicolon r))
  have hend : ((c.past "export default ".toList).past es).rest = ';' :: r := Cursor.rest_past hrest
  have hstop : Reads (statementEnd true) _ _ _ := statementEnd_reads (p := ⟨(c.past "export default ".toList).past es, true⟩) hend
  have hrun := statementFrom_export ha hc rfl (exportValue_run ha hc hnone (expression_reads hcover hstands) hstop)
  obtain ⟨-, hvalue, -, s, hread, hsame, htext⟩ := hmeans
  have hplace : ((c.past "export default ".toList).past es).past [';'] = c.past ("export default ".toList ++ (es ++ [';'])) := by
    rw [← Cursor.past_append, ← Cursor.past_append]
  refine ⟨false, _, hplace ▸ hrun, hplace ▸ rfl, rfl, .exportDefault (.ofShape s), readStatement_exported hvalue hread,
    .exportDefault (Node.readsAs_of_bare hbare hsame), rfl, ?_⟩
  have hsign : exportEnd (.ofShape s) = [';'] := by rw [exportEnd, hsame.isFunction_eq, hfunction]; rfl
  rw [Node.ofShape, exportText_eq, htext, hsign]
  change Except.ok (Text.ofChars "export default ".toList ++ (Text.ofChars es ++ Text.ofChars [';'])) = _
  rw [← Text.ofChars_append, ← Text.ofChars_append]

end

end ApiRoutes.Script
