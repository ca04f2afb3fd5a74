import ApiRoutes.Proofs.Script.Statements
/-!
# Reading declarations

Declarations of variables and imports are read back.
-/
namespace ApiRoutes.Script

open Recogniser Grammar

/-! ## Lists up to a sign -/

theorem joinChars_cons (x : List Char) : ∀ xs : List (List Char),
    joinChars (x :: xs) = x ++ xs.flatMap fun y => ',' :: ' ' :: y
  | [] => (List.append_nil x).symm
  | y :: ys => by
    rw [joinChars, joinChars_cons y ys]
    rfl

section

variable {ι : Type} {part : Recogniser Piece} {chars : ι → List Char} {Good : Piece → Prop} {Q : ι → Concrete → Prop}
  {close : Char} {r : List Char}

theorem moreParts_run (hclose : close ∈ closers) (hne : close ≠ ',') (hr : Meets close r) : ∀ {xs : List ι} {p : Progress},
    (∀ x ∈ xs, ReadsItem close part id Good chars Q x) →
    p.cursor.rest = (xs.map chars).flatMap (fun y => ',' :: ' ' :: y) ++ r → p.afterOperand = true →
    ∃ pss ts, Run (seesSign ",") (do
        let comma ← expectSign ","
        return [comma, ← part]) p pss ⟨p.cursor.past ((xs.map chars).flatMap fun y => ',' :: ' ' :: y), true⟩ ∧
      List.Forall₂ Q xs ts ∧ ∀ t : Concrete, t.kind.isValue = true →
        Interspersed (t :: ts) (t :: pss.flatten.flatMap Piece.trees)
  | [], p, _, hp, hop => by
    obtain ⟨c, s, ha, -, hs⟩ := hr.ahead (List.mem_append_right ['.', '[', '(', '='] hclose) hp
    have hcomma : (String.singleton close == ",") = false := by
      refine beq_eq_false_iff_ne.2 fun e => hne ?_
      have := congrArg String.toList e
      rw [String.toList_singleton] at this
      exact List.singleton_inj.1 this
    obtain ⟨d, b⟩ := p
    obtain rfl : b = true := hop
    refine ⟨[], [], .nil (hcomma ▸ ha.seesSign hs ","), .nil, fun t ht => .last ht⟩
  | x :: xs, p, hxs, hp, hop => by
    obtain ⟨⟨hbegins, hread⟩, hxs⟩ := List.forall_mem_cons.1 hxs
    have hcomma : p.cursor.rest = [','] ++ ([' '] ++ (chars x ++ ((xs.map chars).flatMap (fun y => ',' :: ' ' :: y) ++ r))) := by
      rw [hp]
      simp
    have hahead : Ahead p [] p.cursor := ahead_here (by rw [hcomma]; exact startsToken_cons rfl _)
    have hsign : signAt p.cursor.rest = "," := by rw [hcomma]; rfl
    have hgap := Cursor.rest_past hcomma
    have hitem := ahead_gap (p := ⟨p.cursor.past [','], false⟩) hgap rfl (hbegins _).1
    have hc := Cursor.rest_past hgap
    have hends : EndsItem close ((xs.map chars).flatMap (fun y => ',' :: ' ' :: y) ++ r) := by
      cases xs with
      | nil => exact .inr hr
      | cons y ys => exact .inl ⟨[], _, rfl, .inl rfl, rfl⟩
    obtain ⟨a, t, hpart, hpiece, -, -, hvalue, hq⟩ := hread hitem hc hends
    obtain ⟨pss, ts, hrun, hqs, hall⟩ := moreParts_run hclose hne hr (p := ⟨_, true⟩) hxs (Cursor.rest_past hc) rfl
    have hpast : (((p.cursor.past [',']).past [' ']).past (chars x)).past ((xs.map chars).flatMap fun y => ',' :: ' ' :: y) =
        p.cursor.past (((x :: xs).map chars).flatMap fun y => ',' :: ' ' :: y) := by
      rw [← Cursor.past_append, ← Cursor.past_append, ← Cursor.past_append]
      simp
    rw [← hpast]
    refine ⟨_, t :: ts, .cons ?_ ((hahead.expectSign hsign).bind (hpart.bind (.pure _ _))) ?_ hrun, .cons hq hqs, fun u hu => ?_⟩
    · exact hahead.seesSign hsign ","
    · change (((p.cursor.past [',']).past [' ']).past (chars x)).rest.length < _
      rw [Cursor.rest_past hc, hcomma]
      simp only [List.length_append, List.length_cons]
      omega
    · obtain rfl : a = ⟨[], some t⟩ := hpiece
      exact .cons hu rfl (hall t hvalue)

/-- **A list on one line is read** up to the sign that ends a statement. -/
theorem commaSeparated_reads (hclose : close ∈ closers) (hne : close ≠ ',') (hr : Meets close r) {x : ι} {xs : List ι}
    (hxs : ∀ y ∈ x :: xs, ReadsItem close part id Good chars Q y) {p : Progress} {before : List Concrete} {c : Cursor}
    (ha : Ahead p before c) (hc : c.rest = joinChars ((x :: xs).map chars) ++ r) :
    ∃ ps t ts, Reads (commaSeparated part) p (⟨before, some t⟩ :: ps) ⟨c.past (joinChars ((x :: xs).map chars)), true⟩ ∧
      List.Forall₂ Q (x :: xs) (t :: ts) ∧ Interspersed (t :: ts) (t :: ps.flatMap Piece.trees) ∧ t.span.start = c := by
  rw [List.map_cons, joinChars_cons, List.append_assoc] at hc
  obtain ⟨⟨-, hread⟩, hxs⟩ := List.forall_mem_cons.1 hxs
  have hends : EndsItem close ((xs.map chars).flatMap (fun y => ',' :: ' ' :: y) ++ r) := by
    cases xs with
    | nil => exact .inr hr
    | cons y ys => exact .inl ⟨[], _, rfl, .inl rfl, rfl⟩
  obtain ⟨a, t, hpart, hpiece, -, hspan, hvalue, hq⟩ := hread ha hc hends
  obtain ⟨pss, ts, hrun, hqs, hall⟩ := moreParts_run hclose hne hr (p := ⟨_, true⟩) hxs (Cursor.rest_past hc) rfl
  obtain rfl : a = ⟨before, some t⟩ := hpiece
  refine ⟨pss.flatten, t, ts, ?_, .cons hq hqs, hall t hvalue, by rw [hspan]⟩
  rw [List.map_cons, joinChars_cons, Cursor.past_append]
  exact hpart.bind (hrun.many.bind (.pure _ _))

end

/-! ## Variables -/

/-- The text of a variable of a declaration. -/
def declaratorText (L : Nat) : DeclaratorOf Node → Outcome Text
  | ⟨_, x, none⟩ => return x
  | ⟨_, x, some e⟩ => return x ++ " = " ++ (← expressionText L e)

theorem declaratorTexts_eq {L : Nat} : ∀ ds : List (DeclaratorOf Node), declaratorTexts L ds = ds.mapM (declaratorText L)
  | [] => rfl
  | ⟨l, x, none⟩ :: ds => by
    rw [List.mapM_cons, declaratorTexts, declaratorTexts_eq ds]
    rfl
  | ⟨l, x, some e⟩ :: ds => by
    rw [List.mapM_cons, declaratorTexts, declaratorTexts_eq ds, declaratorText]
    cases expressionText L e <;> rfl

theorem plainDeclarators_mem : ∀ {ds : List (DeclaratorOf Node)}, plainDeclarators ds = true →
    ∀ d ∈ ds, plainDeclarators [d] = true
  | ⟨l, x, init⟩ :: ds, h, e, he => by
    rw [plainDeclarators, Bool.and_eq_true] at h
    rcases List.mem_cons.1 he with rfl | he
    · rw [plainDeclarators, h.1]
      rfl
    · exact plainDeclarators_mem h.2 e he

/-- The tree is read back as the variable that it is written for. -/
def Declares (L : Nat) (x : DeclaratorOf Node × List Char) (t : Concrete) : Prop :=
  ∃ d, (∀ ts, readDeclarators (t :: ts) = do return d :: (← readDeclarators ts)) ∧ Declarator.ReadsAs x.1 d ∧
    declaratorText L d = .ok (Text.ofChars x.2)

section

variable {g : Grammar} {N L : Nat} {l : Layout} {p q : Progress} {before : List Concrete} {c : Cursor} {cs xs r : List Char}

/-- What a variable is written as: its name, and perhaps a value. -/
theorem declaratorChars_ok {d : DeclaratorOf Node} (h : declaratorText L d = .ok (Text.ofChars cs)) :
    ∃ xs s, d.name = Text.ofChars xs ∧ cs = xs ++ s ∧ ((d.init = none ∧ s = []) ∨
      ∃ e es, d.init = some e ∧ expressionText L e = .ok (Text.ofChars es) ∧ s = ' ' :: '=' :: ' ' :: es) := by
  obtain ⟨l, x, init⟩ := d
  cases init with
  | none =>
    obtain rfl : x = Text.ofChars cs := Except.ok.inj h
    exact ⟨cs, [], rfl, (List.append_nil cs).symm, .inl ⟨rfl, rfl⟩⟩
  | some e =>
    rw [declaratorText] at h
    obtain ⟨t, hes, h⟩ := bind_eq_ok.1 h
    have h : (x ++ " = " ++ t : Text) = Text.ofChars cs := Except.ok.inj h
    obtain ⟨ys, es, rfl, hys, rfl⟩ := Text.ofChars_of_append h
    obtain ⟨zs, rfl, rfl⟩ := Text.ofChars_of_append_chars [' ', '=', ' '] hys
    exact ⟨zs, _, rfl, List.append_assoc _ _ _, .inr ⟨e, es, rfl, hes, rfl⟩⟩

theorem declared_reads (hx : isPlainName (Text.ofChars xs) = true) (ha : Ahead p before c) (hc : c.rest = xs ++ r)
    (hr : endsWord r = true) : Reads (declared g) p (tokenPiece before .identifier c xs) ⟨c.past xs, true⟩ := by
  obtain ⟨hword, hname, -⟩ := isPlainName_ofChars hx
  have hread := name_reads ha hc hword hname hr
  obtain ⟨ch, ds, rfl, hch, -⟩ := isWord_iff.1 hword
  obtain ⟨stuck, hstuck⟩ := ha.stuckHere
  refine hstuck.bind (Reads.bind ha.charsAhead ?_)
  rw [hc, List.cons_append]
  split
  · rename_i heq
    cases heq
    exact absurd hch (by decide)
  · rename_i heq
    cases heq
    exact absurd hch (by decide)
  · exact hread

/-- **A variable without a value is read back.** -/
theorem bareDeclarator_reads {l : Layout} (hx : isPlainName (Text.ofChars xs) = true) :
    ReadsItem ';' (declarator g) id (fun _ => True) Prod.snd (Declares L) (⟨l, Text.ofChars xs, none⟩, xs) := by
  refine ⟨begins_word (isPlainName_ofChars hx).1, fun {p before c r} ha hc hr => ?_⟩
  change c.rest = xs ++ r at hc
  obtain ⟨ch, hch, hmeets⟩ : Closes r := hr.closes (by decide)
  have hread := declared_reads (g := g) hx ha hc (Closes.follows ⟨ch, hch, hmeets⟩).endsWord
  obtain ⟨d, s, hd, -, hs⟩ := hmeets.ahead (List.mem_append_right ['.', '[', '(', '='] hch) (p := ⟨c.past xs, true⟩) (Cursor.rest_past hc)
  have hall : closers.all (fun ch => !(String.singleton ch == "=")) = true := by decide
  have hno : (String.singleton ch == "=") = false := by simpa using List.all_eq_true.1 hall ch hch
  refine ⟨_, .node .declarator none ⟨c, c.past xs⟩ [.node .identifier (some .name) ⟨c, c.past xs⟩ []],
    hread.bind ((hd.seesSign hs "=").bind (.ite_not hno (.pure _ _))), rfl, trivial, rfl, rfl, ⟨{}, Text.ofChars xs, none⟩,
    fun ts => ?_, .bare, rfl⟩
  change (do return (⟨{}, Span.text ⟨c, c.past xs⟩, none⟩ : DeclaratorOf Node) :: (← readDeclarators ts)) = _
  rw [Span.text_past hc]

/-- The tree of a variable with a value. -/
def declaratorTree (c : Cursor) (xs : List Char) (t : Concrete) : Concrete :=
  .node .declarator none ⟨c, t.span.stop⟩ [.node .identifier (some .name) ⟨c, c.past xs⟩ [],
    signTree '=' (c.past (xs ++ [' '])), t.withRole .value]

/-- **A variable with a value is read back.** -/
theorem initDeclarator_reads (hg : g.ReadsExpressions N) {l : Layout} {e : Node} {es : List Char}
    (hx : isPlainName (Text.ofChars xs) = true) (hbare : e.isBare = true) (he : plainExpression e = true)
    (ht : expressionText L e = .ok (Text.ofChars es)) (hN : es.length < N) :
    ReadsItem ';' (declarator g) id (fun _ => True) Prod.snd (Declares L)
      (⟨l, Text.ofChars xs, some e⟩, xs ++ (' ' :: '=' :: ' ' :: es)) := by
  refine ⟨(begins_word (isPlainName_ofChars hx).1).append _, fun {p before c r} ha hc hr => ?_⟩
  change c.rest = xs ++ (' ' :: '=' :: ' ' :: es) ++ r at hc
  have hname : c.rest = xs ++ ([' '] ++ (['='] ++ ([' '] ++ (es ++ r)))) := by rw [hc]; simp
  have hread := declared_reads (g := g) hx ha hname rfl
  have hgap := Cursor.rest_past hname
  have hahead : Ahead ⟨c.past xs, true⟩ [] ((c.past xs).past [' ']) := ahead_gap hgap rfl (startsToken_cons rfl _)
  have hsignRest := Cursor.rest_past hgap
  have hsign : signAt ((c.past xs).past [' ']).rest = "=" := by rw [hsignRest]; rfl
  have hgap' := Cursor.rest_past hsignRest
  have hvalue := ahead_gap (p := ⟨((c.past xs).past [' ']).past ['='], false⟩) hgap' rfl (begins_of_plain he ht r).1
  obtain ⟨cov, t, hcover, hstands, hmeans⟩ := hg he ht hN hvalue (Cursor.rest_past hgap') (hr.closes (by decide))
  have hspan := hmeans.span
  obtain ⟨-, -, -, s, hreads, hsame, htext⟩ := hmeans
  have hend : t.span.stop = c.past (xs ++ (' ' :: '=' :: ' ' :: es)) := by
    rw [hspan, Cursor.past_append]
    rfl
  have hrun : Reads (declarator g) p ⟨before, some (declaratorTree c xs t)⟩ ⟨c.past (xs ++ (' ' :: '=' :: ' ' :: es)), true⟩ := by
    refine hread.bind ((hahead.seesSign hsign "=").bind (.ite rfl ?_))
    refine (sign_reads '=' hahead hsign).bind ((expression_reads hcover hstands).bind ?_)
    obtain ⟨k, role, sp, us⟩ := t
    obtain rfl : sp = _ := hspan
    rw [← hend, declaratorTree, Cursor.past_append]
    exact .pure _ _
  refine ⟨_, _, hrun, rfl, trivial, by rw [declaratorTree, hend]; rfl, rfl, ⟨{}, Text.ofChars xs, some (.ofShape s)⟩, fun ts => ?_,
    .init (Node.readsAs_of_bare hbare hsame), ?_⟩
  · obtain ⟨k, role, sp, us⟩ := t
    rw [readExpression_role k role (some .value)] at hreads
    change (do
      let e ← some <$> readExpression (.node k (some .value) sp us)
      return (⟨{}, Span.text ⟨c, c.past xs⟩, e⟩ : DeclaratorOf Node) :: (← readDeclarators ts)) = _
    rw [hreads, Span.text_past hname]
    rfl
  · rw [declaratorText, htext, Text.ofChars_append]
    exact congrArg Except.ok (List.append_assoc _ _ _)

theorem declarator_reads (hg : g.ReadsExpressions N) {d : DeclaratorOf Node} (hd : plainDeclarators [d] = true)
    (ht : declaratorText L d = .ok (Text.ofChars cs)) (hN : cs.length < N) :
    ReadsItem ';' (declarator g) id (fun _ => True) Prod.snd (Declares L) (d, cs) := by
  obtain ⟨xs, s, hname, rfl, hs⟩ := declaratorChars_ok ht
  obtain ⟨l, x, init⟩ := d
  obtain rfl : x = Text.ofChars xs := hname
  rw [plainDeclarators] at hd
  simp only [Bool.and_eq_true] at hd
  obtain ⟨⟨⟨-, hx⟩, hinit⟩, -⟩ := hd
  rcases hs with ⟨hnone, rfl⟩ | ⟨e, es, hsome, hes, rfl⟩
  · obtain rfl : init = none := hnone
    rw [List.append_nil]
    exact bareDeclarator_reads hx
  · obtain rfl : init = some e := hsome
    obtain ⟨hbare, he⟩ := Bool.and_eq_true_iff.1 (hinit : (e.isBare && plainExpression e) = true)
    simp only [List.length_append, List.length_cons] at hN
    exact initDeclarator_reads hg hx hbare he hes (by omega)

/-! ## Declarations -/

/-- The words that declare variables. -/
def variableWords : List String := ["const", "let", "var"]

theorem isWord_variableWord {w : String} (hw : w ∈ variableWords) : isWord w.toList = true := by
  simp only [variableWords, List.mem_cons, List.not_mem_nil, or_false] at hw
  rcases hw with rfl | rfl | rfl <;> decide

theorem startsVariables_name {w : String} (hw : w ∈ variableWords) (hx : isPlainName (Text.ofChars xs) = true)
    (hr : endsWord r = true) : startsVariables w (xs ++ r) = true := by
  obtain ⟨hword, hname, hctx⟩ := isPlainName_ofChars hx
  have hin : (String.ofList xs != "in") = true := bne_iff_ne.2 fun e => by rw [e] at hname; cases hname
  have hof : (String.ofList xs != "of") = true := bne_iff_ne.2 fun e => by rw [e] at hctx; cases hctx
  rw [startsVariables, wordAt_past hword hr, hname, hin, hof]
  simp only [variableWords, List.mem_cons, List.not_mem_nil, or_false] at hw
  rcases hw with rfl | rfl | rfl <;> rfl

/-- The tree of a declaration. -/
def declarationTree (w : String) (c d : Cursor) (all : List Concrete) : Concrete :=
  .node .declaration none ⟨c, d.past [';']⟩ (wordTree w c :: (all ++ [signTree ';' d]))

theorem Interspersed.readDeclarators {xs : List (DeclaratorOf Node × List Char)} {ts all : List Concrete}
    (h : Interspersed ts all) (hxs : List.Forall₂ (Declares L) xs ts) (d : Cursor) :
    ∃ ds, readDeclarators (all ++ [signTree ';' d]) = .ok ds ∧ List.Forall₂ Declarator.ReadsAs (xs.map Prod.fst) ds ∧
      ds.mapM (declaratorText L) = .ok ((xs.map Prod.snd).map Text.ofChars) := by
  have htoken {t : Concrete} {s : String} (h : t.kind = .token s) (ts : List Concrete) :
      Script.readDeclarators (t :: ts) = Script.readDeclarators ts := by
    obtain ⟨k, role, sp, us⟩ := t
    obtain rfl : k = .token s := h
    rfl
  induction h generalizing xs with
  | nil =>
    cases hxs
    exact ⟨[], rfl, .nil, rfl⟩
  | last =>
    obtain _ | ⟨⟨e, he, hsame, htext⟩, hxs⟩ := hxs
    cases hxs
    refine ⟨[e], ?_, .cons hsame .nil, ?_⟩
    · rw [List.singleton_append, he, htoken (s := ";") rfl]
      rfl
    · rw [List.mapM_cons, htext]
      rfl
  | cons _ hc _ ih =>
    obtain _ | ⟨⟨e, he, hsame, htext⟩, hxs⟩ := hxs
    obtain ⟨ds, hds, hsames, htexts⟩ := ih hxs
    refine ⟨e :: ds, ?_, .cons hsame hsames, ?_⟩
    · rw [List.cons_append, List.cons_append, he, htoken hc, hds]
      rfl
    · rw [List.mapM_cons, htext, htexts]
      rfl

/-- The variables of a declaration start with a name. -/
theorem declarators_name {x : DeclaratorOf Node × List Char} {xs : List (DeclaratorOf Node × List Char)}
    (hx : plainDeclarators [x.1] = true) (ht : declaratorText L x.1 = .ok (Text.ofChars x.2)) (r : List Char) :
    ∃ ys s, joinChars ((x :: xs).map Prod.snd) ++ ';' :: r = ys ++ s ∧ isPlainName (Text.ofChars ys) = true ∧
      endsWord s = true := by
  obtain ⟨ys, s, hname, hcs, hs⟩ := declaratorChars_ok ht
  obtain ⟨⟨l, x', init⟩, cs'⟩ := x
  obtain rfl : x' = Text.ofChars ys := hname
  rw [plainDeclarators] at hx
  simp only [Bool.and_eq_true] at hx
  refine ⟨ys, s ++ ((xs.map Prod.snd).flatMap (fun y => ',' :: ' ' :: y) ++ ';' :: r), ?_, hx.1.1.2, ?_⟩
  · rw [List.map_cons, joinChars_cons, hcs]
    simp only [List.append_assoc]
  · rcases hs with ⟨-, rfl⟩ | ⟨e, es, -, -, rfl⟩
    · cases xs <;> rfl
    · rfl

theorem declaration?_variables {w : String} (hw : w ∈ variableWords) (ha : Ahead p before c) {ys s : List Char}
    (hc : c.rest = w.toList ++ ([' '] ++ (ys ++ s))) (hys : isPlainName (Text.ofChars ys) = true) (hs : endsWord s = true)
    {piece : Piece} (hrun : Reads (declaration g .declaration) p piece q) : Reads (declaration? g) p (some piece) q := by
  have hword := isWord_variableWord hw
  have hstarts := startsVariables_name hw hys hs
  obtain ⟨ch, ds, rfl, hch, -⟩ := isWord_iff.1 (isPlainName_ofChars hys).1
  have hthen := wordThen_sign ha (isTokenStart_wordPart hch) (.inr rfl) hword rfl hc
  rw [String.ofList_toList] at hthen
  exact hthen.bind (.ite hstarts (hrun.bind (.pure _ _)))

theorem Reads.modify (f : Progress → Progress) (p : Progress) : Reads (modify f) p () (f p) := rfl

theorem declaration_reads {w : String} (hw : w ∈ variableWords) {x : DeclaratorOf Node × List Char}
    {xs : List (DeclaratorOf Node × List Char)}
    (hxs : ∀ y ∈ x :: xs, ReadsItem ';' (declarator g) id (fun _ => True) Prod.snd (Declares L) y) (ha : Ahead p before c)
    (hc : c.rest = w.toList ++ ([' '] ++ (joinChars ((x :: xs).map Prod.snd) ++ ';' :: r))) :
    ∃ t ts all, Reads (declaration g .declaration) p
        ⟨before, some (declarationTree w c (c.past (w.toList ++ ([' '] ++ joinChars ((x :: xs).map Prod.snd)))) (t :: all))⟩
        ⟨c.past (w.toList ++ ([' '] ++ joinChars ((x :: xs).map Prod.snd)) ++ [';']), false⟩ ∧
      List.Forall₂ (Declares L) (x :: xs) (t :: ts) ∧ Interspersed (t :: ts) (t :: all) := by
  have hword := isWord_variableWord hw
  have hread := anyWord_reads ha hc hword rfl (.token w)
  have hw' : wordAt c.rest = w := by rw [hc, wordAt_past hword rfl, String.ofList_toList]
  have hgap := Cursor.rest_past hc
  have hin := Cursor.rest_past hgap
  have hstart : StartsToken (joinChars ((x :: xs).map Prod.snd) ++ ';' :: r) := by
    rw [List.map_cons, joinChars_cons, List.append_assoc]
    exact ((hxs x List.mem_cons_self).1 _).1
  have hahead := ahead_gap (p := ⟨c.past w.toList, false⟩) hgap rfl hstart
  obtain ⟨ps, t, ts, hlist, hback, hall, -⟩ := commaSeparated_reads (by decide) (by decide)
    (show Meets ';' (';' :: r) from ⟨[], r, rfl, .inl rfl, rfl⟩) hxs hahead hin
  have hend : (((c.past w.toList).past [' ']).past (joinChars ((x :: xs).map Prod.snd))).rest = ';' :: r := Cursor.rest_past hin
  refine ⟨t, ts, ps.flatMap Piece.trees, ?_, hback, hall⟩
  have hd : ((c.past w.toList).past [' ']).past (joinChars ((x :: xs).map Prod.snd)) =
      c.past (w.toList ++ ([' '] ++ joinChars ((x :: xs).map Prod.snd))) := by
    rw [Cursor.past_append, Cursor.past_append]
  change Reads _ _ _ ⟨((c.past w.toList).past [' ']).past (joinChars ((x :: xs).map Prod.snd)), true⟩ at hlist
  rw [hd] at hlist hend
  rw [Cursor.past_append _ _ [';'], declarationTree]
  generalize c.past (w.toList ++ ([' '] ++ joinChars ((x :: xs).map Prod.snd))) = d at hlist hend
  refine (hw' ▸ ha.word).bind (hread.bind ((Reads.modify _ _).bind (hlist.bind ?_)))
  refine (statementEnd_reads (p := ⟨d, true⟩) hend).bind ?_
  rw [tokenPiece, node_between, List.flatMap_cons, List.append_nil]
  exact .pure _ _

/-- **A declaration of variables is read back.** -/
theorem variables_reads (hg : g.ReadsExpressions N) {w : String} (hw : w ∈ variableWords) {ds : List (DeclaratorOf Node)}
    (hne : ds ≠ []) (hds : plainDeclarators ds = true) (ht : statementText L ⟨l, .variables w ds⟩ = .ok (Text.ofChars cs))
    (hN : cs.length ≤ N) (ha : Ahead p before c) (hc : c.rest = cs ++ r) :
    ∃ b t, Reads (statementFrom g) p ⟨before, some t⟩ ⟨c.past cs, b⟩ ∧ t.States c cs L ⟨l, .variables w ds⟩ := by
  rw [statementText, declaratorTexts_eq] at ht
  obtain ⟨ts, hts, ht⟩ := bind_eq_ok.1 ht
  have ht : (w ++ " " ++ Text.joinWith ", " ts ++ ";" : Text) = Text.ofChars cs := Except.ok.inj ht
  obtain ⟨ys, rfl, hys⟩ := Text.ofChars_of_append_chars [';'] ht
  change Text.ofChars w.toList ++ Text.ofChars [' '] ++ _ = _ at hys
  rw [← Text.ofChars_append] at hys
  obtain ⟨zs, rfl, hzs⟩ := Text.ofChars_of_chars_append _ hys
  obtain ⟨xs, rfl, rfl⟩ := joinChars_of_joinWith hzs
  obtain ⟨xs, rfl, rfl, hxs⟩ := forall₂_pairs (List.forall₂_map_right_iff.1 (mapM_eq_ok.1 hts))
  cases xs with
  | nil => exact absurd rfl hne
  | cons x xs =>
    have hitems : ∀ y ∈ x :: xs, ReadsItem ';' (declarator g) id (fun _ => True) Prod.snd (Declares L) y := by
      intro y hy
      have hlen := length_le_joinChars y.2 (List.mem_map_of_mem hy)
      simp only [List.length_append, List.length_cons] at hN
      exact declarator_reads hg (plainDeclarators_mem hds y.1 (List.mem_map_of_mem hy)) (hxs y hy) (by omega)
    have hc' : c.rest = w.toList ++ ([' '] ++ (joinChars ((x :: xs).map Prod.snd) ++ ';' :: r)) := by
      rw [hc]
      simp
    obtain ⟨t, us, all, hread, hback, hall⟩ := declaration_reads hw hitems ha hc'
    obtain ⟨ys, s, hys, hplain, hs⟩ := declarators_name (plainDeclarators_mem hds x.1 (List.mem_map_of_mem List.mem_cons_self))
      (hxs x List.mem_cons_self) r
    have hdecl := declaration?_variables hw ha (by rw [hc', hys]) hplain hs hread
    have hword := isWord_variableWord hw
    obtain ⟨ch, ws, hws, hch, -⟩ := isWord_iff.1 hword
    rw [hws] at hc'
    have hrun := statementFrom_declaration ha hc' (word_not_opening hch) hdecl
    rw [← List.append_assoc w.toList] at hrun
    refine ⟨false, _, hrun, ?_, rfl, ?_⟩
    · rw [Cursor.past_append _ _ [';']]
      rfl
    obtain ⟨es, hes, hsames, htexts⟩ := hall.readDeclarators hback
      (c.past (w.toList ++ [' '] ++ joinChars ((x :: xs).map Prod.snd)))
    refine ⟨.variables w es, ?_, .variables hsames, rfl, ?_⟩
    · have hno : noComments (wordTree w c :: (t :: all ++
          [signTree ';' (c.past (w.toList ++ [' '] ++ joinChars ((x :: xs).map Prod.snd)))])) = .ok () := by
        rw [noComments, List.any_cons, hall.noComments (s := ";") rfl]
        rfl
      rw [declarationTree, readStatement]
      change orKeep _ (do
        noComments (wordTree w c :: (t :: all ++ [signTree ';' _]))
        let es ← readDeclarators (t :: all ++ [signTree ';' _])
        return Shape.variables w es) = _
      rw [hno, hes]
      rfl
    · rw [Node.ofShape, statementText, declaratorTexts_eq, htexts]
      change Except.ok (w ++ " " ++ Text.joinWith ", " (((x :: xs).map Prod.snd).map Text.ofChars) ++ ";" : Text) = _
      rw [joinWith_chars, Text.ofChars_append, Text.ofChars_append, Text.ofChars_append]
      rfl

/-! ## Imports -/

/-- What an import is written as: the name and the source. -/
theorem importChars_ok {x : Text} {source : Node} (hsource : source.isQuoted = true) (hplain : plainExpression source = true)
    (h : statementText L ⟨l, .imports x source⟩ = .ok (Text.ofChars cs)) :
    ∃ xs ss v raw m, x = Text.ofChars xs ∧ source = ⟨m, .literal (.text v) raw⟩ ∧ literalText (.text v) raw = .ok (Text.ofChars ss) ∧
      stringLength? ss = some ss.length ∧ unquote (Text.ofChars ss) = .ok v ∧
      cs = "import ".toList ++ (xs ++ (" from ".toList ++ (ss ++ [';']))) := by
  rw [statementText] at h
  obtain ⟨t, hss, h⟩ := bind_eq_ok.1 h
  have h : (Text.ofChars "import ".toList ++ x ++ Text.ofChars " from ".toList ++ t ++ Text.ofChars [';'] : Text) = Text.ofChars cs :=
    Except.ok.inj h
  obtain ⟨ys, rfl, hys⟩ := Text.ofChars_of_append_chars [';'] h
  obtain ⟨zs, ss, rfl, hzs, rfl⟩ := Text.ofChars_of_append hys
  obtain ⟨ws, rfl, hws⟩ := Text.ofChars_of_append_chars " from ".toList hzs
  obtain ⟨xs, rfl, rfl⟩ := Text.ofChars_of_chars_append "import ".toList hws
  obtain ⟨m, s⟩ := source
  cases s with
  | literal v raw =>
    cases v with
    | text v =>
      rw [literalText_eq] at hss
      cases literalToken_of_plain hplain hss with
      | number hv => cases hv
      | text hlen hval => exact ⟨xs, ss, v, raw, m, rfl, rfl, hss, hlen, hval, by simp⟩
    | _ => cases hsource
  | _ => cases hsource

/-- The tree of an import. -/
def importTree (c d e f : Cursor) (xs ss : List Char) : Concrete :=
  .node .importStatement none ⟨c, f.past (ss ++ [';'])⟩ [wordTree "import" c,
    .node .importClause none ⟨d, d.past xs⟩ [.node .identifier none ⟨d, d.past xs⟩ []], wordTree "from" e,
    .node .string (some .source) ⟨f, f.past ss⟩ [], signTree ';' (f.past ss)]

theorem importClause_reads {d : Cursor} (hx : isPlainName (Text.ofChars xs) = true) (ha : Ahead p before d)
    (hd : d.rest = xs ++ ([' '] ++ ("from".toList ++ r))) :
    Reads importClause p ⟨before, some (.node .importClause none ⟨d, d.past xs⟩ [.node .identifier none ⟨d, d.past xs⟩ []])⟩
      ⟨d.past xs, true⟩ := by
  obtain ⟨hword, hname, -⟩ := isPlainName_ofChars hx
  have hnext := Cursor.rest_past hd
  have hfrom : Ahead ⟨d.past xs, true⟩ [] ((d.past xs).past [' ']) := ahead_gap hnext rfl (startsToken_cons rfl _)
  have hsign : signAt ((d.past xs).past [' ']).rest = "" := by
    rw [Cursor.rest_past hnext]
    exact signAt_eq_empty (by decide)
  have hsome : (wordAt d.rest).isEmpty = false := by
    rw [hd, wordAt_past hword rfl]
    rw [isNameWord, Bool.and_eq_true] at hname
    simpa using hname.1
  refine ha.word.bind (.ite_not hsome ((name_reads ha hd hword hname rfl).bind ?_))
  exact (hfrom.seesSign hsign ",").bind (.ite_not rfl (.pure _ _))

theorem importStatement_reads {ss : List Char} (hx : isPlainName (Text.ofChars xs) = true)
    (hlen : stringLength? ss = some ss.length) (ha : Ahead p before c)
    (hc : c.rest = "import ".toList ++ (xs ++ (" from ".toList ++ (ss ++ ';' :: r)))) :
    ∃ d e f, Reads (importStatement g) p ⟨before, some (importTree c d e f xs ss)⟩ ⟨f.past (ss ++ [';']), false⟩ ∧
      d.rest = xs ++ (" from ".toList ++ (ss ++ ';' :: r)) ∧ f.rest = ss ++ ';' :: r ∧
      f.past (ss ++ [';']) = c.past ("import ".toList ++ (xs ++ (" from ".toList ++ (ss ++ [';'])))) := by
  have hword : c.rest = "import".toList ++ ([' '] ++ (xs ++ ([' '] ++ ("from".toList ++ ([' '] ++ (ss ++ ';' :: r)))))) := by
    rw [hc, show "import ".toList = "import".toList ++ [' '] from rfl,
      show " from ".toList = [' '] ++ "from".toList ++ [' '] from rfl]
    simp only [List.append_assoc]
  have hgap := Cursor.rest_past hword
  have hstart : StartsToken (xs ++ ([' '] ++ ("from".toList ++ ([' '] ++ (ss ++ ';' :: r))))) :=
    startsToken_word (isPlainName_ofChars hx).1 _
  have hd := ahead_gap (p := ⟨c.past "import".toList, false⟩) hgap rfl hstart
  have hdrest := Cursor.rest_past hgap
  have hclause := importClause_reads hx hd hdrest
  generalize hd' : (c.past "import".toList).past [' '] = d at hd hdrest hclause
  have hnext := Cursor.rest_past hdrest
  have he : Ahead ⟨d.past xs, true⟩ [] ((d.past xs).past [' ']) := ahead_gap hnext rfl (startsToken_cons rfl _)
  have herest := Cursor.rest_past hnext
  generalize he' : (d.past xs).past [' '] = e at he herest
  have hfgap := Cursor.rest_past herest
  have hquote : StartsToken (ss ++ ';' :: r) := by
    obtain ⟨ch, ds, rfl, hq⟩ := quote_of_stringLength? hlen
    rcases hq with rfl | rfl <;> exact startsToken_cons rfl _
  have hf := ahead_gap (p := ⟨e.past "from".toList, false⟩) hfgap rfl hquote
  have hfrest := Cursor.rest_past hfgap
  have hstring := string_reads hf hfrest hlen
  generalize hf' : (e.past "from".toList).past [' '] = f at hf hfrest hstring
  have hend : (f.past ss).rest = ';' :: r := Cursor.rest_past hfrest
  have hno : Reads (seesWord "with") ⟨f.past ss, true⟩ false ⟨f.past ss, true⟩ := by
    have hahead : Ahead ⟨f.past ss, true⟩ [] (f.past ss) := ahead_here (by rw [hend]; exact startsToken_cons rfl r)
    exact hahead.seesWord (w := "") (by rw [hend]; exact wordAt_eq_empty (.inl (by decide)) (by decide)) "with"
  have hplace : f.past (ss ++ [';']) = c.past ("import ".toList ++ (xs ++ (" from ".toList ++ (ss ++ [';'])))) := by
    rw [← hf', ← he', ← hd']
    simp only [← Cursor.past_append]
    simp
  refine ⟨d, e, f, ?_, hdrest, hfrest, hplace⟩
  refine (ha.expectWord (by rw [hword]; exact wordAt_past (by decide) rfl)).bind (Reads.bind hd.charsAhead ?_)
  have hfrom : Reads fromModule ⟨d.past xs, true⟩ [⟨[], some (wordTree "from" e)⟩,
      ⟨[], some (.node .string (some .source) ⟨f, f.past ss⟩ [])⟩] ⟨f.past ss, true⟩ :=
    (he.expectWord (by rw [herest]; exact wordAt_past (by decide) rfl)).bind (hstring.bind (.pure _ _))
  obtain ⟨ch, ds, hds, hch, -⟩ := isWord_iff.1 (isPlainName_ofChars hx).1
  rw [show d.rest = ch :: (ds ++ ([' '] ++ ("from".toList ++ ([' '] ++ (ss ++ ';' :: r))))) by rw [hdrest, hds]; rfl]
  split
  · rename_i heq
    cases heq
    exact absurd hch (by decide)
  · rename_i heq
    cases heq
    exact absurd hch (by decide)
  dsimp only
  refine hclause.bind (hfrom.bind ((Reads.pure _ _).bind (hno.bind (.ite_not rfl ((Reads.pure _ _).bind ?_)))))
  refine (statementEnd_reads (p := ⟨f.past ss, true⟩) hend).bind ?_
  rw [importTree, Cursor.past_append]
  exact .pure _ _

/-- **An import is read back.** -/
theorem imports_reads {x : Text} {source : Node} (hx : isPlainName x = true) (hbare : source.isBare = true)
    (hsource : source.isQuoted = true) (hplain : plainExpression source = true)
    (ht : statementText L ⟨l, .imports x source⟩ = .ok (Text.ofChars cs)) (ha : Ahead p before c) (hc : c.rest = cs ++ r) :
    ∃ b t, Reads (statementFrom g) p ⟨before, some t⟩ ⟨c.past cs, b⟩ ∧ t.States c cs L ⟨l, .imports x source⟩ := by
  obtain ⟨xs, ss, v, raw, m, rfl, rfl, hraw, hlen, hval, rfl⟩ := importChars_ok hsource hplain ht
  have hc' : c.rest = "import ".toList ++ (xs ++ (" from ".toList ++ (ss ++ ';' :: r))) := by rw [hc]; simp
  obtain ⟨d, e, f, hread, hd, hf, hplace⟩ := importStatement_reads (g := g) hx hlen ha hc'
  have hrun : Reads (statementFrom g) p ⟨before, some (importTree c d e f xs ss)⟩ ⟨f.past (ss ++ [';']), false⟩ := by
    obtain ⟨ch, ds, rfl, hch, -⟩ := isWord_iff.1 (isPlainName_ofChars hx).1
    have hword : c.rest = "import".toList ++ ([' '] ++ ch :: (ds ++ (" from ".toList ++ (ss ++ ';' :: r)))) := hc'
    have hthen := wordThen_sign ha (isTokenStart_wordPart hch) (.inr rfl) (by decide) rfl hword
    refine statementFrom_other ha hc' (by decide) hthen ?_ ?_
    · rw [hc', show "import ".toList = "import".toList ++ [' '] from rfl, List.append_assoc, wordAt_past (by decide) rfl]
      decide
    · refine .ite_not ?_ hread
      have hne {d : Char} (hd : isWordPart d = false) : (some ch == some d) = false :=
        beq_eq_false_iff_ne.2 fun e => isWordPart_ne hch hd (Option.some.inj e)
      rw [List.head?_cons, hne (by decide), hne (by decide)]
      rfl
  rw [hplace] at hrun
  refine ⟨false, _, hrun, by rw [importTree, hplace]; rfl, rfl,
    .imports (Text.ofChars xs) (.ofShape (.literal (.text v) (some (Text.ofChars ss)))), ?_,
    .imports (Node.readsAs_of_bare hbare (.literal rfl hraw)), rfl, ?_⟩
  · have hstring := stringOf_eq (t := .node .string (some .source) ⟨f, f.past ss⟩ []) rfl (Span.text_past hf) hval
    rw [importTree, readStatement]
    change orKeep _ (do
      let source ← stringLiteral (.node .string (some .source) ⟨f, f.past ss⟩ [])
      return Shape.imports (Span.text ⟨d, d.past xs⟩) (.ofShape source)) = _
    rw [stringLiteral, hstring, Span.text_past hd]
    rfl
  · rw [Node.ofShape, statementText, Node.ofShape, expressionText]
    change Except.ok (Text.ofChars "import ".toList ++ Text.ofChars xs ++ Text.ofChars " from ".toList ++ Text.ofChars ss ++
      Text.ofChars [';']) = _
    simp only [← Text.ofChars_append, List.append_assoc]

end

end ApiRoutes.Script
