import ApiRoutes.Proofs.Script.Functions
/-!
# Printing and reading back

A plain program is read back from its own text as one that is written the same (`parse_render`).  Each level of the
grammar reads the texts that its nesting leaves room for (`level_readsStatements`), and a source has levels for
its whole length.
-/
namespace ApiRoutes.Script

open Recogniser Grammar

/-! ## Statements -/

section

variable {g : Grammar} {N L : Nat} {n : Node} {p : Progress} {before : List Concrete} {c : Cursor} {cs r : List Char}

/-- **A plain statement is read back.** -/
theorem statement_reads (hg : g.ReadsExpressions N) (hnames : g.ReadsNames N) (hstatements : g.ReadsStatements N)
    (hn : plainStatement n = true) (ht : statementText L n = .ok (Text.ofChars cs)) (hN : cs.length ≤ N)
    (ha : Ahead p before c) (hc : c.rest = cs ++ r) (hr : n.isBraced = true → endsHere true r = true) :
    ∃ b t, Reads (statementFrom g) p ⟨before, some t⟩ ⟨c.past cs, b⟩ ∧ t.States c cs L n := by
  obtain ⟨l, s⟩ := n
  cases s with
  | function f => exact function_reads hnames hstatements hn ht hN ha hc (hr rfl)
  | «variables» kind ds =>
    rw [plainStatement] at hn
    simp only [Bool.and_eq_true, Bool.or_eq_true, beq_iff_eq, Bool.not_eq_true', List.isEmpty_eq_false_iff] at hn
    obtain ⟨⟨hkind, hne⟩, hds⟩ := hn
    rcases hkind with (rfl | rfl) | rfl
    · exact variables_reads (w := "const") hg (by decide) hne hds ht hN ha hc
    · exact variables_reads (w := "let") hg (by decide) hne hds ht hN ha hc
    · exact variables_reads (w := "var") hg (by decide) hne hds ht hN ha hc
  | expression e =>
    rw [plainStatement] at hn
    simp only [Bool.and_eq_true] at hn
    obtain ⟨⟨⟨hbare, hlead⟩, -⟩, he⟩ := hn
    rw [statementText] at ht
    obtain ⟨t, hes, ht⟩ := bind_eq_ok.1 ht
    obtain ⟨es, rfl, rfl⟩ := Text.ofChars_of_append_chars [';'] (Except.ok.inj ht)
    rw [List.length_append] at hN
    exact expressionStatement_reads hg hbare hlead he hes (Nat.lt_of_succ_le hN) ha hc
  | returns e =>
    cases e with
    | none =>
      rw [statementText] at ht
      obtain rfl := Text.ofChars_inj (Except.ok.inj ht)
      exact returnNone_reads ha hc
    | some e =>
      rw [plainStatement, Bool.and_eq_true] at hn
      rw [statementText] at ht
      obtain ⟨t, hes, ht⟩ := bind_eq_ok.1 ht
      obtain ⟨ds, rfl, hds⟩ := Text.ofChars_of_append_chars [';'] (Except.ok.inj ht)
      obtain ⟨es, rfl, rfl⟩ := Text.ofChars_of_chars_append "return ".toList hds
      rw [List.length_append, List.length_append] at hN
      exact returnSome_reads hg hn.1 hn.2 hes (by simp only [List.length_singleton] at hN; omega) ha hc
  | imports x source =>
    rw [plainStatement] at hn
    simp only [Bool.and_eq_true] at hn
    exact imports_reads hn.1.1.1 hn.1.1.2 hn.1.2 hn.2 ht ha hc
  | exportDefault d =>
    rw [plainStatement, Bool.and_eq_true] at hn
    obtain ⟨hbare, hd⟩ := hn
    cases hfunction : d.isFunction with
    | true =>
      obtain ⟨m, s⟩ := d
      cases s with
      | function f => exact exportFunction_reads hnames hstatements hbare hd ht hN ha hc (hr rfl)
      | _ => cases hfunction
    | false =>
      have hplain : plainExpression d = true := by
        obtain ⟨m, s⟩ := d
        cases s <;> first | exact hd | cases hfunction
      exact exportValue_reads hg hbare hfunction hplain ht hN ha hc
  | _ => cases hn

end

/-- **Each level of the grammar reads back** the statements that are shorter than the levels below it. -/
theorem level_readsStatements : ∀ n, (level n).ReadsStatements n
  | 0 => fun _ _ hN => absurd hN (Nat.not_lt_zero _)
  | n + 1 => fun hn ht hN ha hc hr => statement_reads (level_readsExpressions n) (level_readsNames n)
      (level_readsStatements n) hn ht (Nat.le_of_lt_succ hN) ha hc hr

/-! ## Programs -/

section

variable {body : List Node} {ls : List Text} {cs : List Char}

/-- No line for an interpreter stands above plain statements. -/
theorem interpreterLine_reads {p : Progress} {before : List Concrete} {c : Cursor} (ha : Ahead p before c)
    (hc : c.rest = [] ∨ ∃ xs r, Opens xs ∧ c.rest = xs ++ r) : Reads interpreterLine p [] p := by
  refine Reads.bind ha.charsAhead ?_
  rcases hc with hc | ⟨xs, r, hxs, hc⟩
  · rw [hc]
    exact .pure _ _
  · obtain ⟨ch, ds, rfl, hch⟩ := hxs.head
    rw [hc]
    split
    · rename_i heq
      obtain rfl : ch = '#' := (List.cons.inj heq).1
      cases hch
    · exact .pure _ _

/-- **The lines of plain statements are recognised** as a module whose statements are written the same. -/
theorem recognise_lines (hplain : plainStatements body = true) (hls : blockLines 0 none body = .ok ls)
    (hcs : linesText ls = Text.ofChars cs) :
    ∃ tree ms, recognise cs = .ok tree ∧ sequence (readStatements tree.children) = .ok ms ∧ Restored 0 body ms cs := by
  have hp : (Cursor.ofSource cs).rest = [] ++ (cs ++ ([] ++ [])) := by
    rw [List.nil_append, List.append_nil, List.append_nil]
    rfl
  have hmore {p : Progress} {before : List Concrete} {c : Cursor} {xs r : List Char} (ha : Ahead p before c) (hxs : Opens xs)
      (hc : c.rest = xs ++ r) : Reads (return !(← charsAhead).isEmpty) p true p := by
    obtain ⟨ch, ds, rfl, -⟩ := hxs.head
    refine Reads.bind ha.charsAhead ?_
    rw [hc]
    exact .pure _ _
  have hend {p : Progress} {before : List Concrete} {c : Cursor} (ha : Ahead p before c) (hc : c.rest = []) :
      Reads (return !(← charsAhead).isEmpty) p false p := by
    refine Reads.bind ha.charsAhead ?_
    rw [hc]
    exact .pure _ _
  obtain ⟨before, c, hfirst, hc⟩ := statements_ahead (p := { cursor := .ofSource cs }) rfl startsToken_nil hplain hls hcs rfl hp
  obtain ⟨as, q, ks, gap, ms, hrun, hq, -, hms, hrestored⟩ :=
    Grammar.ReadsStatements.run (level_readsStatements (cs.length + 8)) hmore hend rfl startsToken_nil leaves_nil hplain hls hcs
      (by omega) rfl (p := { cursor := .ofSource cs }) hp
  have hread : Reads (script (level (cs.length + 8))) { cursor := .ofSource cs }
      (.node .program none ⟨.ofSource cs, placePast q.cursor ks gap⟩ (([] ++ as).flatMap Piece.trees ++ ks.trees q.cursor)) q :=
    (Reads.get _).bind ((interpreterLine_reads hfirst hc).bind (hrun.many.bind
      (Reads.bind (hq.ahead startsToken_nil) (.pure _ _))))
  have htree : recognise cs = Except.map Prod.fst (Except.ok _) := congrArg (Except.map Prod.fst) hread
  refine ⟨_, ms, htree, ?_, hrestored⟩
  exact (congrArg sequence (readStatements_eq _)).trans hms

/-- The text of a program is the lines of its body. -/
theorem render_eq (p : Program) : p.render = do return linesText (← blockLines 0 none p.body) := by
  rw [Program.render]
  cases blockLines 0 none p.body with
  | error => rfl
  | ok ls =>
    cases ls with
    | nil => rfl
    | cons l ls => exact congrArg Except.ok (joinWith_end (List.cons_ne_nil l ls))

/-- **A plain program is read back** from its own text, as one that is written the same. -/
theorem parse_render {p : Program} (hp : p.isPlain = true) (ht : p.render = .ok (Text.ofChars cs)) (path : Option Text) :
    ∃ q, Program.parse (Text.ofChars cs) path = .ok q ∧ List.Forall₂ Node.ReadsAs p.body q.body ∧
      blanksAfter none q.body = blanksAfter none p.body ∧ q.render = .ok (Text.ofChars cs) := by
  rw [render_eq] at ht
  obtain ⟨ls, hls, ht⟩ := bind_eq_ok.1 ht
  obtain ⟨tree, ms, htree, hms, hsame, hblanks, ls', hls', htext⟩ := recognise_lines hp hls (Except.ok.inj ht)
  refine ⟨{ body := ms }, ?_, hsame, hblanks, ?_⟩
  · simp only [Program.parse, Text.toChars?_ofChars, htree, hms]
  · rw [render_eq]
    change (blockLines 0 none ms >>= _) = _
    rw [hls']
    exact congrArg Except.ok htext

end

end ApiRoutes.Script
