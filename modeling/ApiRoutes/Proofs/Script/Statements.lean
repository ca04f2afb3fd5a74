import ApiRoutes.Proofs.Script.Ends
import ApiRoutes.Proofs.Script.Entries
/-!
# Reading statements
-/
namespace ApiRoutes.Script

open Recogniser Grammar

/-! ## What statements are told by -/

/-- The words that can start a declaration. -/
def declarationWords : List String := ["var", "const", "let", "function", "class", "async", "using"]

/-- The statement that a word starts, unless it is a declaration; `rest` stands after the word. -/
def wordStatement (g : Grammar) (w : String) (rest : List Char) : Recogniser Piece :=
  match w with
  | "if" => ifStatement g
  | "for" => forStatement g
  | "while" => guarded g "while"
  | "with" => guarded g "with"
  | "do" => doStatement g
  | "switch" => switchStatement g
  | "try" => tryStatement g
  | "break" => jump .other "break" false name
  | "continue" => jump .other "continue" false name
  | "debugger" => return .node .other [← expectWord "debugger", ← statementEnd false]
  | "return" => jump .returnStatement "return" true g.expressions
  | "throw" => do
    let word ← expectWord "throw"
    let e ← g.expressions
    return .node .other [word, e, ← statementEnd true]
  | "import" =>
    if rest.head? == some '(' || rest.head? == some '.' then expressionStatement g
    else importStatement g
  | "export" => exportStatement g []
  | _ => if isNameWord w && signAt rest == ":" then labelled g else expressionStatement g

/-- The tree is read back as the statement that it is written for. -/
structure Concrete.States (t : Concrete) (c : Cursor) (cs : List Char) (L : Nat) (n : Node) : Prop where
  span : t.span = ⟨c, c.past cs⟩
  value : t.kind.isValue = true
  reads : ∃ s, readStatement t = .ok (.ofShape s) ∧ n.shape.ReadsAs s ∧ (Node.ofShape s).isComment = false ∧
    statementText L (.ofShape s) = .ok (Text.ofChars cs)

section

variable {g : Grammar} {N L : Nat} {l : Layout} {p q : Progress} {before : List Concrete} {c : Cursor} {cs es r : List Char}

theorem declaration?_none (ha : Ahead p before c) (hw : wordAt c.rest ∉ declarationWords) :
    Reads (declaration? g) p none p := by
  have hne (w : String) (h : w ∈ declarationWords) : (wordAt c.rest == w) = false :=
    beq_eq_false_iff_ne.2 fun e => hw (e ▸ h)
  obtain ⟨ds, hthen⟩ : ∃ ds, Reads wordThen p (wordAt c.rest, ds) p := ⟨_, ha.wordThen rfl rfl⟩
  have hvariables : startsVariables (wordAt c.rest) ds = false := by
    rw [startsVariables, hne "var" (by decide), hne "const" (by decide), hne "let" (by decide)]
    rfl
  have hasync : Reads seesAsyncFunction p false p :=
    Reads.peeking ((ha.seesWord rfl "async").bind (.ite_not (hne _ (by decide)) (.pure _ p)))
  refine hthen.bind (.ite_not hvariables (.ite_not (hne _ (by decide)) (.ite_not (hne _ (by decide)) ?_)))
  refine hasync.bind (.ite_not rfl (.ite_not ?_ (.pure _ p)))
  rw [hne "using" (by decide)]
  rfl

/-- A statement that starts with a word or a string is told by its first word. -/
theorem statementFrom_other {w : String} {ds : List Char} {piece : Piece} (ha : Ahead p before c) {ch : Char} {s : List Char}
    (hc : c.rest = ch :: s) (hch : ch ≠ '\x7b' ∧ ch ≠ ';' ∧ ch ≠ '@') (hthen : Reads wordThen p (w, ds) p)
    (hw : wordAt c.rest ∉ declarationWords) (hrun : Reads (wordStatement g w ds) p piece q) :
    Reads (statementFrom g) p piece q := by
  have hdecl := declaration?_none (g := g) ha hw
  refine Reads.bind ha.charsAhead ?_
  rw [hc]
  split
  · rename_i heq
    cases heq
    exact absurd rfl hch.1
  · rename_i heq
    cases heq
    exact absurd rfl hch.2.1
  · rename_i heq
    cases heq
    exact absurd rfl hch.2.2
  · exact hthen.bind (hdecl.bind hrun)

theorem statementFrom_declaration {piece : Piece} (ha : Ahead p before c) {ch : Char} {s : List Char} (hc : c.rest = ch :: s)
    (hch : ch ≠ '\x7b' ∧ ch ≠ ';' ∧ ch ≠ '@') (hdecl : Reads (declaration? g) p (some piece) q) :
    Reads (statementFrom g) p piece q := by
  obtain ⟨ds, hthen⟩ : ∃ ds, Reads wordThen p (wordAt c.rest, ds) p := ⟨_, ha.wordThen rfl rfl⟩
  refine Reads.bind ha.charsAhead ?_
  rw [hc] at hthen ⊢
  split
  · rename_i heq
    cases heq
    exact absurd rfl hch.1
  · rename_i heq
    cases heq
    exact absurd rfl hch.2.1
  · rename_i heq
    cases heq
    exact absurd rfl hch.2.2
  · exact hthen.bind (hdecl.bind (.pure _ _))

theorem isWordPart_ne {ch d : Char} (h : isWordPart ch = true) (hd : isWordPart d = false) : ch ≠ d := by
  rintro rfl
  rw [h] at hd
  cases hd

theorem word_not_opening {ch : Char} (h : isWordPart ch = true) : ch ≠ '\x7b' ∧ ch ≠ ';' ∧ ch ≠ '@' :=
  ⟨isWordPart_ne h (by decide), isWordPart_ne h (by decide), isWordPart_ne h (by decide)⟩

/-! ## Expressions -/

/-- Is the expression one that a statement can be? -/
def Node.isLeading (n : Node) : Bool := n.isOperand || n.isAssignment

theorem leads_of_leading {e : Node} (he : e.isLeading = true) (hplain : plainExpression e = true)
    (ht : expressionText L e = .ok (Text.ofChars es)) (hr : Follows r) : Leads e (es ++ r) := by
  cases hop : e.isOperand with
  | true => exact leads_of_operand hop hplain ht hr
  | false =>
    rw [Node.isLeading, hop, Bool.false_or] at he
    obtain ⟨l, s⟩ := e
    cases s with
    | assignment a v =>
      obtain ⟨xs, vs, hxs, -, rfl⟩ := assignmentChars_ok ht
      rw [plainExpression] at hplain
      simp only [Bool.and_eq_true] at hplain
      obtain ⟨⟨⟨⟨htarget, -⟩, ha⟩, -⟩, -⟩ := hplain
      have hop : a.isOperand = true := by
        obtain ⟨l, s⟩ := a
        cases s <;> first | rfl | cases htarget
      rw [List.append_assoc]
      exact (leads_of_operand hop ha hxs ⟨'=', by decide, [' '], ' ' :: vs ++ r, rfl, .inr rfl, rfl⟩).of rfl
    | _ => cases he

theorem closes_semicolon (r : List Char) : Closes (';' :: r) := ⟨';', by decide, [], r, rfl, .inl rfl, rfl⟩

/-- An expression is read with the semicolon after it. -/
theorem ended_reads (hg : g.ReadsExpressions N) {e : Node} (he : plainExpression e = true)
    (ht : expressionText L e = .ok (Text.ofChars es)) (hN : es.length < N) (ha : Ahead p before c)
    (hc : c.rest = es ++ ';' :: r) : ∃ t, Reads g.expressions p ⟨before, some t⟩ ⟨c.past es, true⟩ ∧
      Reads (statementEnd true) ⟨c.past es, true⟩ ⟨[], some (signTree ';' (c.past es))⟩ ⟨c.past (es ++ [';']), false⟩ ∧
      t.Means c es L e := by
  obtain ⟨cov, t, hread, hstands, hmeans⟩ := hg he ht hN ha hc (closes_semicolon r)
  have hend : (c.past es).rest = ';' :: r := Cursor.rest_past hc
  have hcomma : Reads (seesSign ",") ⟨c.past es, true⟩ false ⟨c.past es, true⟩ := by
    have hahead : Ahead ⟨c.past es, true⟩ [] (c.past es) := ahead_here (by rw [hend]; exact startsToken_cons rfl r)
    exact hahead.seesSign (s := ";") (by rw [hend]; rfl) ","
  refine ⟨t, expressions_reads hread hstands hcomma, ?_, hmeans⟩
  rw [Cursor.past_append]
  exact statementEnd_reads (p := ⟨c.past es, true⟩) hend

theorem readExpressions_ended {t : Concrete} {m : Node} (ht : t.kind.isValue = true) (hm : readExpression t = .ok m)
    (x : Char) (d : Cursor) : readExpressions [t, signTree x d] = .ok [m] :=
  (Interspersed.last ht).readExpressions (.cons hm .nil) (show (signTree x d).kind = _ from rfl)

/-- The tree of a statement that is an expression. -/
def expressionTree (t : Concrete) (c : Cursor) (es : List Char) : Concrete :=
  .node .expressionStatement none ⟨c, c.past (es ++ [';'])⟩ [t, signTree ';' (c.past es)]

theorem Concrete.Means.expressionStatement {e : Node} {t : Concrete} (ht : t.Means c es L e) (he : e.isBare = true) :
    (expressionTree t c es).States c (es ++ [';']) L ⟨l, .expression e⟩ := by
  obtain ⟨-, hvalue, -, s, hread, hsame, htext⟩ := ht
  refine ⟨rfl, rfl, .expression (.ofShape s), ?_, .expression (Node.readsAs_of_bare he hsame), rfl, ?_⟩
  · have hno : noComments [t, signTree ';' (c.past es)] = .ok () := by
      rw [noComments, List.any_cons, (Kind.isValue_named hvalue).1]
      rfl
    rw [expressionTree, readStatement]
    rw [hno, readExpressions_ended hvalue hread]
    rfl
  · rw [Node.ofShape, statementText, htext, Text.ofChars_append]
    rfl

/-- A statement that no keyword starts is an expression, unless a colon follows its name. -/
theorem wordStatement_expression {w : String} {ds : List Char} {piece : Piece} (hw : keywords.contains w = false)
    (hcolon : (isNameWord w && signAt ds == ":") = false) (hrun : Reads (expressionStatement g) p piece q) :
    Reads (wordStatement g w ds) p piece q := by
  unfold wordStatement
  split
  iterate 14 exact absurd hw (by decide)
  exact .ite_not hcolon hrun

theorem name_not_declaration (hx : isPlainName (Text.ofChars es) = true) (hr : endsWord r = true) :
    wordAt (es ++ r) ∉ declarationWords := by
  obtain ⟨hword, hname, hctx⟩ := isPlainName_ofChars hx
  rw [wordAt_past hword hr]
  intro hmem
  have hall : declarationWords.all (fun w => !isNameWord w || contextualWords.contains w) = true := by decide
  have := List.all_eq_true.1 hall _ hmem
  rw [hname, hctx] at this
  cases this

theorem Leads.statement {e : Node} (h : Leads e c.rest) (ha : Ahead p before c) {piece : Piece}
    (hrun : Reads (expressionStatement g) p piece q) : Reads (statementFrom g) p piece q := by
  cases h with
  | @name x r hx hplain _ hr =>
    obtain ⟨hword, hname, -⟩ := isPlainName_ofChars hplain
    obtain ⟨ch, hch, gap, s, rfl, hgap, hs⟩ := hr
    have hend : endsWord (gap ++ ch :: s) = true := Follows.endsWord ⟨ch, hch, gap, s, rfl, hgap, hs⟩
    have hstart : followers.all isTokenStart = true := by decide
    have hthen := wordThen_sign ha (List.all_eq_true.1 hstart ch hch) hgap hword hend hx
    have hw : wordAt c.rest ∉ declarationWords := hx ▸ name_not_declaration hplain hend
    obtain ⟨d, ds, rfl, hd, -⟩ := isWord_iff.1 hword
    have hcolon : (signAt (ch :: s) == ":") = false := by
      have hall : followers.all (fun ch => !(String.singleton ch == ":")) = true := by decide
      rw [hs]
      simpa using List.all_eq_true.1 hall ch hch
    refine statementFrom_other ha hx (word_not_opening hd) hthen hw
      (wordStatement_expression ?_ (by rw [hcolon, Bool.and_false]) hrun)
    rw [isNameWord, Bool.and_eq_true] at hname
    simpa using hname.2
  | @string ch r hx hch =>
    have hword : wordAt c.rest = "" := by
      rw [hx]
      rcases hch with rfl | rfl <;> exact wordAt_eq_empty (.inl (by decide)) (by decide)
    have hthen := ha.wordThen hword rfl
    exact statementFrom_other ha hx (by rcases hch with rfl | rfl <;> decide) hthen (by rw [hword]; decide)
      (wordStatement_expression (by decide) (by rfl) hrun)

/-- **A statement that is an expression is read back.** -/
theorem expressionStatement_reads (hg : g.ReadsExpressions N) {e : Node} (hbare : e.isBare = true) (hlead : e.isLeading = true)
    (he : plainExpression e = true) (ht : expressionText L e = .ok (Text.ofChars es)) (hN : es.length < N)
    (ha : Ahead p before c) (hc : c.rest = es ++ [';'] ++ r) :
    ∃ b t, Reads (statementFrom g) p ⟨before, some t⟩ ⟨c.past (es ++ [';']), b⟩ ∧
      t.States c (es ++ [';']) L ⟨l, .expression e⟩ := by
  rw [List.append_assoc] at hc
  obtain ⟨t, hread, hend, hmeans⟩ := ended_reads hg he ht hN ha hc
  have hleads := leads_of_leading hlead he ht (closes_semicolon r).follows
  rw [← show c.rest = es ++ ';' :: r from hc] at hleads
  have hrun : Reads (expressionStatement g) p ⟨before, some (expressionTree t c es)⟩ ⟨c.past (es ++ [';']), false⟩ := by
    refine hread.bind (hend.bind ?_)
    have hspan := hmeans.span
    obtain ⟨k, role, sp, ts⟩ := t
    obtain rfl : sp = ⟨c, c.past es⟩ := hspan
    rw [expressionTree, Cursor.past_append]
    exact .pure _ _
  exact ⟨false, _, hleads.statement ha hrun, hmeans.expressionStatement hbare⟩

/-! ## Returns -/

/-- The tree of a word of the grammar. -/
def wordTree (w : String) (c : Cursor) : Concrete := .node (.token w) none ⟨c, c.past w.toList⟩ []

/-- A statement that a keyword starts. -/
theorem keyword_reads {w : String} {piece : Piece} (hw : isWord w.toList = true) (hdecl : w ∉ declarationWords)
    (ha : Ahead p before c) (hc : c.rest = w.toList ++ r) (hr : endsWord r = true)
    (hrun : ∀ {ds : List Char}, Reads wordThen p (w, ds) p → Reads (wordStatement g w ds) p piece q) :
    Reads (statementFrom g) p piece q := by
  have hword : wordAt c.rest = w := by rw [hc, wordAt_past hw hr, String.ofList_toList]
  have hthen := ha.wordThen hword rfl
  obtain ⟨ch, ds, hds, hch, -⟩ := isWord_iff.1 hw
  rw [hds] at hc
  exact statementFrom_other ha hc (word_not_opening hch) hthen (by rwa [hword]) (hrun hthen)

theorem return_reads {piece : Piece} (ha : Ahead p before c) (hc : c.rest = "return".toList ++ r) (hr : endsWord r = true)
    (hrun : Reads (jump .returnStatement "return" true g.expressions) p piece q) : Reads (statementFrom g) p piece q :=
  keyword_reads (w := "return") (by decide) (by decide) ha hc hr fun _ => hrun

/-- **An empty return is read back.** -/
theorem returnNone_reads (ha : Ahead p before c) (hc : c.rest = "return;".toList ++ r) :
    ∃ b t, Reads (statementFrom g) p ⟨before, some t⟩ ⟨c.past "return;".toList, b⟩ ∧
      t.States c "return;".toList L ⟨l, .returns none⟩ := by
  have hword : c.rest = "return".toList ++ ';' :: r := hc
  have hin : (c.past "return".toList).rest = ';' :: r := Cursor.rest_past hword
  have hahead : Ahead ⟨c.past "return".toList, false⟩ [] (c.past "return".toList) :=
    ahead_here (by rw [hin]; exact startsToken_cons rfl r)
  have hsign : signAt (c.past "return".toList).rest = ";" := by rw [hin]; rfl
  have hrun : Reads (jump .returnStatement "return" true g.expressions) p
      ⟨before, some (.node .returnStatement none ⟨c, c.past "return;".toList⟩
        [wordTree "return" c, signTree ';' (c.past "return".toList)])⟩ ⟨c.past "return;".toList, false⟩ := by
    refine (ha.expectWord (by rw [hword]; exact wordAt_past (by decide) rfl)).bind ?_
    refine (optionalEnd_none rfl (.inl rfl) hin).bind ?_
    exact (hahead.seesSign hsign ";").bind (.ite rfl ((sign_reads ';' hahead hsign).bind (.pure _ _)))
  exact ⟨false, _, return_reads ha hword rfl hrun, rfl, rfl, .returns none, rfl, .returnsNone, rfl, rfl⟩

/-- The tree of a return with a value. -/
def returnTree (t : Concrete) (c d : Cursor) (es : List Char) : Concrete :=
  .node .returnStatement none ⟨c, d.past (es ++ [';'])⟩ [wordTree "return" c, t, signTree ';' (d.past es)]

theorem readExpressions_token {s : String} {t : Concrete} (ht : t.kind = .token s) (ts : List Concrete) :
    readExpressions (t :: ts) = readExpressions ts := by
  obtain ⟨k, role, sp, us⟩ := t
  obtain rfl : k = .token s := ht
  rfl

theorem Concrete.Means.returns {e : Node} {t : Concrete} (ht : t.Means (c.past "return ".toList) es L e) (he : e.isBare = true) :
    (returnTree t c (c.past "return ".toList) es).States c ("return ".toList ++ es ++ [';']) L ⟨l, .returns (some e)⟩ := by
  obtain ⟨-, hvalue, -, s, hread, hsame, htext⟩ := ht
  refine ⟨?_, rfl, .returns (some (.ofShape s)), ?_, .returns (Node.readsAs_of_bare he hsame), rfl, ?_⟩
  · rw [List.append_assoc, Cursor.past_append]
    rfl
  · have hno : noComments [wordTree "return" c, t, signTree ';' ((c.past "return ".toList).past es)] = .ok () := by
      rw [noComments, List.any_cons, List.any_cons, (Kind.isValue_named hvalue).1]
      rfl
    rw [returnTree, readStatement]
    have hvalues : readExpressions [wordTree "return" c, t, signTree ';' ((c.past "return ".toList).past es)] = .ok [.ofShape s] :=
      (readExpressions_token rfl _).trans (readExpressions_ended hvalue hread _ _)
    rw [hno, hvalues]
    rfl
  · rw [Node.ofShape, statementText, htext, Text.ofChars_append, Text.ofChars_append]
    rfl

/-- **A return with a value is read back.** -/
theorem returnSome_reads (hg : g.ReadsExpressions N) {e : Node} (hbare : e.isBare = true)
    (he : plainExpression e = true) (ht : expressionText L e = .ok (Text.ofChars es)) (hN : es.length < N)
    (ha : Ahead p before c) (hc : c.rest = "return ".toList ++ es ++ [';'] ++ r) :
    ∃ b t, Reads (statementFrom g) p ⟨before, some t⟩ ⟨c.past ("return ".toList ++ es ++ [';']), b⟩ ∧
      t.States c ("return ".toList ++ es ++ [';']) L ⟨l, .returns (some e)⟩ := by
  have hword : c.rest = "return".toList ++ ([' '] ++ (es ++ ';' :: r)) := by rw [hc]; simp
  have hgap : (c.past "return".toList).rest = [' '] ++ (es ++ ';' :: r) := Cursor.rest_past hword
  have hbegins := begins_of_plain he ht
  have hahead : Ahead ⟨c.past "return".toList, false⟩ [] ((c.past "return".toList).past [' ']) :=
    ahead_gap hgap rfl (hbegins _).1
  have hrest := Cursor.rest_past hgap
  obtain ⟨t, hread, hend, hmeans⟩ := ended_reads hg he ht hN hahead hrest
  have hnot : Reads (seesSign ";") ⟨c.past "return".toList, false⟩ false ⟨c.past "return".toList, false⟩ := by
    have hsign : (signAt ((c.past "return".toList).past [' ']).rest == ";") = false := by
      have := (hbegins (';' :: r)).2
      rw [hrest]
      simp only [List.mem_cons, List.not_mem_nil, or_false] at this
      rcases this with h | h | h | h <;> rw [h] <;> decide
    exact hsign ▸ hahead.seesSign rfl ";"
  have hempty : Reads (optionalEnd false) ⟨c.past "return".toList, false⟩ [] ⟨c.past "return".toList, false⟩ := by
    obtain ⟨ch, ds, rfl, hch⟩ := hbegins.head
    exact optionalEnd_none hch (.inr rfl) hgap
  have hrun : Reads (jump .returnStatement "return" true g.expressions) p
      ⟨before, some (returnTree t c (c.past "return ".toList) es)⟩ ⟨c.past ("return ".toList ++ es ++ [';']), false⟩ := by
    refine (ha.expectWord (by rw [hword]; exact wordAt_past (by decide) rfl)).bind (hempty.bind ?_)
    refine hnot.bind (.ite_not rfl (hread.bind (hend.bind ?_)))
    simp only [returnTree, List.append_assoc, Cursor.past_append]
    exact .pure _ _
  exact ⟨false, _, return_reads ha hword rfl hrun, hmeans.returns hbare⟩

end

end ApiRoutes.Script
