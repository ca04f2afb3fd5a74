import ApiRoutes.Proofs.Printing
import ApiRoutes.Proofs.Script.Blocks
import ApiRoutes.Proofs.Script.Declarations
/-!
# Reading blocks

Statements in rows are read back one by one (`statements_read`), be it to the closing brace of a block
(`block_reads`) or to the end of a source.  A statement that ends in a brace needs what follows to start a
statement of its own (`opens_of_plain`).
-/
namespace ApiRoutes.Script

open Recogniser Grammar

/-! ## First characters -/

/-- A character that plain statements start with. -/
def opensStatement (ch : Char) : Bool := isWordPart ch || ch == '\'' || ch == '"'

/-- The characters start a statement, and do not go on with one before. -/
structure Opens (cs : List Char) : Prop where
  head : ∃ ch ds, cs = ch :: ds ∧ opensStatement ch = true
  alone : ∀ r, startsStatement (cs ++ r) = true

theorem opensStatement_ne {ch d : Char} (h : opensStatement ch = true) (hd : opensStatement d = false) : ch ≠ d := by
  rintro rfl
  rw [h] at hd
  cases hd

theorem startsStatement_cons {ch : Char} {s : List Char} (h : opensStatement ch = true)
    (hs : ch = 'i' → s.head? ≠ some 'n') : startsStatement (ch :: s) = true := by
  unfold startsStatement
  split
  iterate 4 (rename_i heq; cases heq; cases h)
  · rename_i heq
    cases heq
    exact absurd rfl (hs rfl)
  · rename_i heq
    cases heq
    rw [Bool.not_eq_true', List.contains_eq_mem, decide_eq_false_iff_not]
    intro hmem
    have hall : "\x60,:;*%><=[(?^|&/".toList.all (fun ch => !opensStatement ch) = true := by decide
    have := List.all_eq_true.1 hall ch hmem
    rw [h] at this
    cases this
  · rfl

theorem opens_cons {ch : Char} {ds : List Char} (h : opensStatement ch = true) (hs : ch = 'i' → ∃ d es, ds = d :: es ∧ d ≠ 'n') :
    Opens (ch :: ds) := by
  refine ⟨⟨ch, ds, rfl, h⟩, fun r => startsStatement_cons h fun hi => ?_⟩
  obtain ⟨d, es, rfl, hd⟩ := hs hi
  exact fun e => hd (Option.some.inj e)

/-- The operator that the name starts like is no prefix of it, whatever follows it. -/
theorem prefix_of_name {w ds r : List Char} (hds : w.isPrefixOf ds = false) (hw : w.all isWordPart = true)
    (hr : endsWord r = true) : w.isPrefixOf (ds ++ r) = false := by
  induction w generalizing ds with
  | nil => cases hds
  | cons a w ih =>
    rw [List.all_cons, Bool.and_eq_true] at hw
    cases ds with
    | nil =>
      cases r with
      | nil => rfl
      | cons b r =>
        have hne : a ≠ b := by
          rintro rfl
          rw [endsWord, List.head?_cons, Option.all_some, hw.1] at hr
          cases hr
        rw [List.nil_append, List.isPrefixOf, beq_eq_false_iff_ne.2 hne, Bool.false_and]
    | cons b ds =>
      rw [List.isPrefixOf, Bool.and_eq_false_iff] at hds
      rw [List.cons_append, List.isPrefixOf, Bool.and_eq_false_iff]
      exact hds.imp_right fun h => ih h hw.2

/-- **A name that starts plainly** starts a statement. -/
theorem opens_name {xs r : List Char} (hx : isPlainName (Text.ofChars xs) = true) (hs : startsPlainly (Text.ofChars xs) = true)
    (hr : endsWord r = true) : startsStatement (xs ++ r) = true := by
  obtain ⟨ch, ds, rfl, hch, -⟩ := isWord_iff.1 (isPlainName_ofChars hx).1
  have hopens : opensStatement ch = true := by rw [opensStatement, hch]; rfl
  by_cases hin : ch = 'i' ∧ ds.head? = some 'n'
  · obtain ⟨rfl, hn⟩ := hin
    cases ds with
    | nil => cases hn
    | cons d ds =>
      obtain rfl : d = 'n' := Option.some.inj hn
      rw [startsPlainly, Text.toChars?_ofChars, Option.any_some] at hs
      change (!noLetter ds && !"stanceof".toList.isPrefixOf ds) = true at hs
      rw [Bool.and_eq_true, Bool.not_eq_true', Bool.not_eq_true'] at hs
      obtain ⟨hletter, hprefix⟩ := hs
      have hprefix := prefix_of_name hprefix (by decide) hr
      have hletter : noLetter (ds ++ r) = false := by
        cases ds with
        | nil => cases hletter
        | cons => exact hletter
      change (if noLetter (ds ++ r) = true then false else _) = true
      rw [hletter, if_neg Bool.false_ne_true]
      split
      · rename_i heq
        rw [← List.append_eq, heq] at hprefix
        cases hprefix
      · rfl
  · refine startsStatement_cons hopens fun hi hn => hin ⟨hi, ?_⟩
    cases ds with
    | nil =>
      exfalso
      cases r with
      | nil => cases hn
      | cons d r =>
        obtain rfl : d = 'n' := Option.some.inj hn
        cases hr
    | cons => exact hn

/-! ## Texts of functions -/

section

variable {L : Nat} {l : Layout} {cs : List Char}

/-- The word before an asynchronous function. -/
def asyncChars (isAsync : Bool) : List Char := if isAsync then "async ".toList else []

/-- What a function is written as, from its name, its parameters and its block. -/
def functionChars (isAsync : Bool) (xs : List Char) (ps : List (List Char)) (bs : List Char) : List Char :=
  asyncChars isAsync ++ ("function ".toList ++ (xs ++ ('(' :: (joinChars ps ++ (')' :: ' ' :: bs)))))

/-- What a block of statements is written as. -/
inductive BlockChars (L : Nat) (body : List Node) : List Char → Prop
  | empty (h : body = []) : BlockChars L body "\x7b\x7d".toList
  | lines {ls : List Text} {cs : List Char} (h : body ≠ []) (hls : blockLines (L + 1) none body = .ok ls)
    (hcs : linesText ls = Text.ofChars cs) : BlockChars L body ('\x7b' :: '\n' :: (cs ++ (indentChars L ++ ['\x7d'])))

theorem blockLines_ne_nil : ∀ {ns : List Node} {previous : Option Node} {ls : List Text}, blockLines L previous ns = .ok ls → ns ≠ [] → ls ≠ []
  | [], _, _, _, h => absurd rfl h
  | n :: ns, previous, ls, h, _ => by
    rw [blockLines] at h
    obtain ⟨t, -, h⟩ := bind_eq_ok.1 h
    obtain ⟨ls', -, h⟩ := bind_eq_ok.1 h
    obtain rfl := Except.ok.inj h
    simp [statementLines]

theorem functionHead_eq {x : Text} (hx : isPlainName x = true) (params : List Text) (isAsync : Bool) :
    functionHead (some x) params isAsync = Text.ofChars (asyncChars isAsync ++ "function ".toList) ++
      (x ++ (Text.ofChars ['('] ++ (Text.joinWith ", " params ++ Text.ofChars [')']))) := by
  cases x with
  | nil => cases hx
  | cons c x =>
    rw [functionHead]
    cases isAsync <;> simp [asyncChars, Text.ofChars] <;> rfl

/-- What a function is written as. -/
theorem functionChars_ok {name : Option Text} {params : List Text} {body : List Node} {isAsync : Bool}
    (hsome : name.isSome = true) (hname : name.all isPlainName = true)
    (h : functionText L ⟨name, params, body, isAsync⟩ = .ok (Text.ofChars cs)) :
    ∃ xs ps bs, name = some (Text.ofChars xs) ∧ isPlainName (Text.ofChars xs) = true ∧ params = ps.map Text.ofChars ∧
      BlockChars L body bs ∧ cs = functionChars isAsync xs ps bs := by
  obtain ⟨x, rfl⟩ := Option.isSome_iff_exists.1 hsome
  rw [Option.all_some] at hname
  obtain ⟨bt, hbt, hcs⟩ : ∃ bt, (functionHead (some x) params isAsync ++ (Text.ofChars [' '] ++ bt) : Text) = Text.ofChars cs ∧
      ∀ bs, bt = Text.ofChars bs → BlockChars L body bs := by
    rw [functionText] at h
    by_cases hb : body = []
    · subst hb
      refine ⟨Text.ofChars "\x7b\x7d".toList, Except.ok.inj h, fun bs hbs => ?_⟩
      rw [← Text.ofChars_inj hbs]
      exact .empty rfl
    · have hempty : body.isEmpty = false := by cases body <;> first | rfl | exact absurd rfl hb
      rw [hempty] at h
      obtain ⟨ls, hls, h⟩ := bind_eq_ok.1 h
      have h := Except.ok.inj h
      refine ⟨Text.ofChars ['\x7b', '\n'] ++ (linesText ls ++ Text.ofChars (indentChars L ++ ['\x7d'])), ?_, fun bs hbs => ?_⟩
      · rw [← h, ← joinWith_end (blockLines_ne_nil hls hb), indentation_eq, Text.ofChars_append]
        simp only [List.append_assoc]
        rfl
      · obtain ⟨y, rfl, hy⟩ := Text.ofChars_of_chars_append _ hbs
        obtain ⟨z, rfl, hz⟩ := Text.ofChars_of_append_chars _ hy
        exact .lines hb hls hz
  rw [functionHead_eq hname, List.append_assoc] at hbt
  obtain ⟨w, rfl, hw⟩ := Text.ofChars_of_chars_append _ hbt
  rw [List.append_assoc] at hw
  obtain ⟨xs, y, rfl, rfl, hy⟩ := Text.ofChars_of_append hw
  rw [List.append_assoc] at hy
  obtain ⟨z, rfl, hz⟩ := Text.ofChars_of_chars_append _ hy
  obtain ⟨u, v, rfl, hu, hv⟩ := Text.ofChars_of_append hz
  obtain ⟨bs, rfl, hbs⟩ := Text.ofChars_of_chars_append _ hv
  obtain ⟨q, rfl, hq⟩ := Text.ofChars_of_append_chars _ hu
  obtain ⟨ps, rfl, rfl⟩ := joinChars_of_joinWith hq
  exact ⟨xs, ps, bs, rfl, hname, rfl, hcs bs hbs, by simp [functionChars]⟩

theorem functionText_chars {xs bs : List Char} {ps : List (List Char)} {body : List Node} (isAsync : Bool)
    (hx : isPlainName (Text.ofChars xs) = true) (hbs : BlockChars L body bs) :
    functionText L ⟨some (Text.ofChars xs), ps.map Text.ofChars, body, isAsync⟩ =
      .ok (Text.ofChars (functionChars isAsync xs ps bs)) := by
  have hhead : functionHead (some (Text.ofChars xs)) (ps.map Text.ofChars) isAsync ++ Text.ofChars (' ' :: bs) =
      Text.ofChars (functionChars isAsync xs ps bs) := by
    rw [functionHead_eq hx, joinWith_chars, functionChars]
    simp only [← Text.ofChars_append]
    simp
  rw [← hhead, functionText]
  cases hbs with
  | empty h =>
    subst h
    rfl
  | @lines ls cs h hls hcs =>
    have hempty : body.isEmpty = false := by cases body <;> first | rfl | exact absurd rfl h
    have hlines : (" \x7b\n" ++ Text.joinWith "\n" ls ++ "\n" ++ indentation L ++ "\x7d" : Text) =
        Text.ofChars (' ' :: '\x7b' :: '\n' :: (cs ++ (indentChars L ++ ['\x7d']))) := by
      have hjoin := (joinWith_end (blockLines_ne_nil hls h)).trans hcs
      rw [List.append_assoc (Text.ofString " \x7b\n"), hjoin, indentation_eq]
      change Text.ofChars " \x7b\n".toList ++ _ ++ _ ++ Text.ofChars ['\x7d'] = _
      simp only [← Text.ofChars_append]
      simp
    rw [hempty, hls, ← hlines]
    refine congrArg Except.ok ?_
    simp only [List.append_assoc]

def Node.isFunction (n : Node) : Bool :=
  match n.shape with
  | .function _ => true
  | _ => false

/-- The sign after an exported expression. -/
def exportEnd (d : Node) : List Char := if d.isFunction then [] else [';']

theorem exportText_eq (d : Node) : statementText L ⟨l, .exportDefault d⟩ = do
    return Text.ofChars "export default ".toList ++ ((← expressionText L d) ++ Text.ofChars (exportEnd d)) := by
  obtain ⟨m, s⟩ := d
  rw [statementText]
  cases expressionText L ⟨m, s⟩ with
  | error => rfl
  | ok t =>
    cases s with
    | function => exact congrArg (fun u : Text => Except.ok (Text.ofChars "export default ".toList ++ u)) (List.append_nil t).symm
    | _ => exact congrArg Except.ok (List.append_assoc _ _ _)

/-- What a default export is written as. -/
theorem exportChars_ok {d : Node} (h : statementText L ⟨l, .exportDefault d⟩ = .ok (Text.ofChars cs)) :
    ∃ ds, expressionText L d = .ok (Text.ofChars ds) ∧ cs = "export default ".toList ++ (ds ++ exportEnd d) := by
  rw [exportText_eq] at h
  obtain ⟨t, ht, h⟩ := bind_eq_ok.1 h
  obtain ⟨y, rfl, hy⟩ := Text.ofChars_of_chars_append _ (Except.ok.inj h)
  obtain ⟨ds, rfl, rfl⟩ := Text.ofChars_of_append_chars _ hy
  exact ⟨ds, ht, rfl⟩

/-! ## Starts of statements -/

theorem opens_leading {e : Node} {es : List Char} (hlead : e.isLeading = true) (hs : (leadingName e).all startsPlainly = true)
    (he : plainExpression e = true) (ht : expressionText L e = .ok (Text.ofChars es)) : Opens (es ++ [';']) := by
  have hleads (r : List Char) : Leads e (es ++ ';' :: r) := leads_of_leading hlead he ht (closes_semicolon r).follows
  refine ⟨?_, fun r => ?_⟩
  · cases hleads [] with
    | @name x r h hx =>
      obtain ⟨ch, ds, rfl, hch, -⟩ := isWord_iff.1 (isPlainName_ofChars hx).1
      exact ⟨ch, ds ++ r, h, by rw [opensStatement, hch]; rfl⟩
    | @string ch r h hch => exact ⟨ch, r, h, by rcases hch with rfl | rfl <;> rfl⟩
  · rw [List.append_assoc, List.singleton_append]
    cases hleads r with
    | name h hx hl hr =>
      rw [hl, Option.all_some] at hs
      rw [h]
      exact opens_name hx hs hr.endsWord
    | string h hch =>
      rw [h]
      rcases hch with rfl | rfl <;> exact startsStatement_cons rfl nofun

/-- **A plain statement starts plainly.** -/
theorem opens_of_plain {n : Node} (hn : plainStatement n = true) (ht : statementText L n = .ok (Text.ofChars cs)) : Opens cs := by
  obtain ⟨l, s⟩ := n
  cases s with
  | function f =>
    obtain ⟨name, params, body, isAsync⟩ := f
    rw [plainStatement, plainFunction] at hn
    simp only [Bool.and_eq_true] at hn
    rw [statementText] at ht
    obtain ⟨xs, ps, bs, -, -, -, -, rfl⟩ := functionChars_ok hn.1.2 hn.2.1.1 ht
    cases isAsync <;> exact opens_cons rfl fun hi => by cases hi
  | «variables» kind ds =>
    rw [plainStatement] at hn
    simp only [Bool.and_eq_true, Bool.or_eq_true, beq_iff_eq] at hn
    rw [statementText] at ht
    obtain ⟨ts, -, ht⟩ := bind_eq_ok.1 ht
    have ht := Except.ok.inj ht
    rw [List.append_assoc, List.append_assoc] at ht
    rcases hn.1.1 with (rfl | rfl) | rfl <;>
      (obtain ⟨ds, rfl, -⟩ := Text.ofChars_of_chars_append _ ht
       exact opens_cons rfl fun hi => by cases hi)
  | expression e =>
    rw [plainStatement] at hn
    simp only [Bool.and_eq_true] at hn
    obtain ⟨⟨⟨-, hlead⟩, hstarts⟩, he⟩ := hn
    rw [statementText] at ht
    obtain ⟨t, hes, ht⟩ := bind_eq_ok.1 ht
    obtain ⟨es, rfl, rfl⟩ := Text.ofChars_of_append_chars [';'] (Except.ok.inj ht)
    exact opens_leading hlead hstarts he hes
  | returns e =>
    cases e with
    | none =>
      rw [statementText] at ht
      rw [← Text.ofChars_inj (Except.ok.inj ht)]
      exact opens_cons rfl fun hi => by cases hi
    | some e =>
      rw [statementText] at ht
      obtain ⟨t, -, ht⟩ := bind_eq_ok.1 ht
      have ht := Except.ok.inj ht
      rw [List.append_assoc] at ht
      obtain ⟨ds, rfl, -⟩ := Text.ofChars_of_chars_append "return ".toList ht
      exact opens_cons rfl fun hi => by cases hi
  | imports x source =>
    rw [statementText] at ht
    obtain ⟨t, -, ht⟩ := bind_eq_ok.1 ht
    have ht := Except.ok.inj ht
    simp only [List.append_assoc] at ht
    obtain ⟨ds, rfl, -⟩ := Text.ofChars_of_chars_append "import ".toList ht
    exact opens_cons rfl fun _ => ⟨'m', _, rfl, by decide⟩
  | exportDefault d =>
    obtain ⟨ds, -, rfl⟩ := exportChars_ok ht
    exact opens_cons rfl fun hi => by cases hi
  | _ => cases hn

end

/-! ## Statements among others -/

/-- Does the statement end in a brace? -/
def Node.isBraced (n : Node) : Bool :=
  match n.shape with
  | .function _ => true
  | .exportDefault d => d.isFunction
  | _ => false

/-- The grammar reads back every plain statement with fewer than `N` characters, if one that ends in a brace
can end there. -/
def Grammar.ReadsStatements (g : Grammar) (N : Nat) : Prop :=
  ∀ {L : Nat} {n : Node} {cs r : List Char} {p : Progress} {before : List Concrete} {c : Cursor},
    plainStatement n = true → statementText L n = .ok (Text.ofChars cs) → cs.length < N →
    Ahead p before c → c.rest = cs ++ r → (n.isBraced = true → endsHere true r = true) →
    ∃ b t, Reads g.statement p ⟨before, some t⟩ ⟨c.past cs, b⟩ ∧ t.States c cs L n

theorem plainStatements_comment {l : Layout} {c : Comment} {ns : List Node} (h : plainStatements (⟨l, .comment c⟩ :: ns) = true) :
    (c.isSound = true ∧ l.isBare = true) ∧ ns.head?.all (fun n => n.isComment || blankBetween ⟨l, .comment c⟩ n) = true ∧
      plainStatements ns = true := by
  rw [plainStatements] at h
  simp only [Bool.and_eq_true] at h
  exact ⟨h.1.1, h.1.2, h.2⟩

theorem plainStatements_cons {n : Node} {ns : List Node} (hc : n.isComment = false) :
    plainStatements (n :: ns) = (n.layout.isPlain && plainStatement n && plainStatements ns) := by
  obtain ⟨l, s⟩ := n
  cases s with
  | comment => cases hc
  | _ =>
    rw [plainStatements]
    exact nofun

theorem plainStatements_mem : ∀ {ns : List Node}, plainStatements ns = true →
    ∀ n ∈ ns, n.isComment = false → plainStatement n = true
  | m :: ns, h, n, hn, hc => by
    cases hm : m.isComment with
    | false =>
      rw [plainStatements_cons hm, Bool.and_eq_true, Bool.and_eq_true] at h
      rcases List.mem_cons.1 hn with rfl | htail
      · exact h.1.2
      · exact plainStatements_mem h.2 n htail hc
    | true =>
      rcases List.mem_cons.1 hn with rfl | htail
      · rw [hm] at hc
        cases hc
      · obtain ⟨l, s⟩ := m
        cases s with
        | comment c => exact plainStatements_mem (plainStatements_comment h).2.2 n htail hc
        | _ => cases hm

theorem isPlainRow_statements : ∀ {ns : List Node}, plainStatements ns = true → ns.all Node.isPlainRow = true
  | [], _ => rfl
  | n :: ns, h => by
    cases hc : n.isComment with
    | false =>
      rw [plainStatements_cons hc, Bool.and_eq_true, Bool.and_eq_true] at h
      rw [List.all_cons, Node.isPlainRow_of_ne hc, h.1.1, isPlainRow_statements h.2]
      rfl
    | true =>
      obtain ⟨l, s⟩ := n
      cases s with
      | comment c =>
        obtain ⟨⟨hsound, hbare⟩, -, h⟩ := plainStatements_comment h
        rw [List.all_cons, isPlainRow_statements h, Node.isPlainRow, Node.isBare]
        simp only [Node.shape, Node.layout, hsound, hbare]
        rfl
      | _ => cases hc

section

variable {L N : Nat} {g : Grammar} {more : Recogniser Bool} {r tail : List Char} {text : Node → Outcome Text}
  {ns : List Node} {rows : List (Row (Node × List Char))}

/-- A blank line stands between a comment on its own and what follows it. -/
theorem spaced_of_plain (hrows : List.Forall₂ (RowOf text) ns rows) : ∀ {previous : Option Node}, plainStatements ns = true →
    rows.map Row.blank = blanksAfter previous ns → spaced rows = true := by
  induction hrows with
  | nil => exact fun _ _ => rfl
  | @cons n row ns rows hn hrest ih =>
    intro previous hplain hblanks
    rw [List.map_cons, blanksAfter, List.cons.injEq] at hblanks
    cases hn with
    | @comment blank l c =>
      obtain ⟨-, hnext, hplain⟩ := plainStatements_comment hplain
      rw [spaced, ih hplain hblanks.2, Bool.and_true]
      cases hrest with
      | nil => rfl
      | @cons m row' ns rows hm _ =>
        rw [List.map_cons, blanksAfter, List.cons.injEq] at hblanks
        rw [List.head?_cons, Option.all_some] at hnext ⊢
        rw [hm.isComment_eq, hblanks.2.1]
        exact hnext
    | item hc =>
      rw [plainStatements_cons hc, Bool.and_eq_true] at hplain
      rw [spaced, ih hplain.2 hblanks.2]
      rfl

theorem leaves_indent {s : List Char} (h : Leaves s) : Leaves (indentChars L ++ s) :=
  h.gap (List.all_eq_true.2 fun c hc => by rw [List.eq_of_mem_replicate hc]; rfl)

theorem leaves_comments {s : List Char} (h : Leaves s) : ∀ {ks : List Comment}, ks.all Comment.isSound = true →
    Leaves (commentChars (indentChars L) ks ++ s)
  | [], _ => h
  | k :: ks, hk => by
    rw [List.all_cons, Bool.and_eq_true] at hk
    have hrest : Leaves ('\n' :: (commentChars (indentChars L) ks ++ s)) := (leaves_comments h hk.2).gap (show ['\n'].all isWide = true from rfl)
    have := leaves_indent (L := L) (hrest.comment hk.1)
    rw [commentChars_cons]
    simpa only [List.append_assoc, List.cons_append, List.nil_append] using this

theorem Opens.leaves {cs : List Char} (h : Opens cs) (r : List Char) : Leaves (cs ++ r) := by
  have halone := h.alone r
  obtain ⟨ch, ds, rfl, hch⟩ := h.head
  have hgap : isGap ch = false := by
    rw [opensStatement, Bool.or_eq_true, Bool.or_eq_true, beq_iff_eq, beq_iff_eq] at hch
    rcases hch with (hch | rfl) | rfl
    · simp only [isWordPart, Bool.and_eq_true, Bool.not_eq_true'] at hch
      exact hch.1.2
    · rfl
    · rfl
  exact leaves_token (isGap_of_isWide hgap).1 (opensStatement_ne hch rfl) halone

theorem Opens.startsToken {cs : List Char} (h : Opens cs) (r : List Char) : StartsToken (cs ++ r) := by
  obtain ⟨ch, ds, rfl, hch⟩ := h.head
  rw [opensStatement, Bool.or_eq_true, Bool.or_eq_true, beq_iff_eq, beq_iff_eq] at hch
  rcases hch with (hch | rfl) | rfl
  · exact startsToken_cons (isTokenStart_wordPart hch) _
  · exact startsToken_cons rfl _
  · exact startsToken_cons rfl _

theorem isBraced_trailing {n : Node} (hn : plainStatement n = true) (hb : n.isBraced = true) : n.layout.trailing = none := by
  obtain ⟨l, s⟩ := n
  cases s with
  | function f =>
    rw [plainStatement, Bool.and_eq_true, Bool.and_eq_true, Option.isNone_iff_eq_none] at hn
    exact hn.1.1
  | exportDefault d =>
    obtain ⟨m, s⟩ := d
    rw [plainStatement, Bool.and_eq_true] at hn
    cases s with
    | function f =>
      have hn := hn.2
      rw [plainExported, Bool.and_eq_true, Bool.and_eq_true, Option.isNone_iff_eq_none] at hn
      exact hn.1.1
    | _ => cases hb
  | _ => cases hb

/-- What a statement is read as, which is written the same. -/
def StatedAs (L : Nat) (x : Node × List Char) (s : Shape) : Prop :=
  x.1.shape.ReadsAs s ∧ (Node.ofShape s).isComment = false ∧ statementText L (.ofShape s) = .ok (Text.ofChars x.2)

/-- A statement is read as the item of a row. -/
theorem Grammar.ReadsStatements.readsRow (hg : g.ReadsStatements N)
    (hmore : ∀ {p : Progress} {before : List Concrete} {c : Cursor} {cs : List Char}, Ahead p before c → Opens cs →
      c.rest = cs ++ r → Reads more p true p) {x : Node × List Char} (hn : plainStatement x.1 = true)
    (ht : statementText L x.1 = .ok (Text.ofChars x.2)) (hN : x.2.length < N) (hr : x.1.isBraced = true → endsHere true r = true) :
    ReadsRow more g.statement Piece.trees readStatement [] Prod.snd (fun _ => True)
      (fun x v => ∃ s, v = .ok (.ofShape s) ∧ StatedAs L x s) x r := by
  have hopens := opens_of_plain hn ht
  obtain ⟨ch, ds, hcs, -⟩ := hopens.head
  refine ⟨by rw [hcs]; exact List.cons_ne_nil _ _, hopens.startsToken _, fun {p before c} ha hbefore hc => ?_⟩
  obtain ⟨b, t, hread, hspan, hvalue, s, hs, hsame⟩ := hg hn ht hN ha hc hr
  rw [List.append_nil]
  refine ⟨_, b, readStatement t, hmore ha hopens hc, hread, trivial, ⟨s, hs, hsame⟩, ?_⟩
  have htrees : Piece.trees ⟨before, some t⟩ = before ++ [t] := rfl
  rw [htrees, siblings_append, siblings, siblings, List.flatMap_singleton, siblingOf_value hvalue, Concrete.firstRow,
    Concrete.lastRow, hspan]
  change _ ++ [Sibling.item c.row (c.past x.2).row (readStatement t)] = _
  rw [Cursor.row_past hc]

/-- **Plain statements in rows can be read**, and do not go on with a statement before them. -/
theorem Grammar.ReadsStatements.rowsReadable (hg : g.ReadsStatements N)
    (hmore : ∀ {p : Progress} {before : List Concrete} {c : Cursor} {cs r : List Char}, Ahead p before c → Opens cs →
      c.rest = cs ++ r → Reads more p true p) (htail : Leaves tail)
    (hrows : List.Forall₂ (RowOf (statementText L)) ns rows) (hplain : plainStatements ns = true)
    (hN : (rowsChars (indentChars L) [] Prod.snd rows).length < N) :
    RowsReadable more g.statement Piece.trees readStatement (indentChars L) [] tail Prod.snd (fun _ => True)
      (fun x v => ∃ s, v = .ok (.ofShape s) ∧ StatedAs L x s) rows ∧
    Leaves (rowsChars (indentChars L) [] Prod.snd rows ++ tail) := by
  induction hrows with
  | nil => exact ⟨trivial, htail⟩
  | @cons n row ns rows hn _ ih =>
    have hblank {b : Bool} {s : List Char} (h : Leaves s) : Leaves (blankChars b ++ s) := h.gap (by cases b <;> rfl)
    rw [rowsChars, List.flatMap_cons, ← rowsChars] at hN ⊢
    rw [List.length_append] at hN
    cases hn with
    | @comment blank l c =>
      obtain ⟨⟨hsound, -⟩, -, hplain⟩ := plainStatements_comment hplain
      obtain ⟨hreadable, hleaves⟩ := ih hplain (by omega)
      refine ⟨hreadable, ?_⟩
      rw [Row.chars, List.append_assoc, List.append_assoc]
      exact hblank (leaves_comments hleaves (by rw [List.all_cons, hsound]; rfl))
    | @item blank _ x hc ht =>
      rw [plainStatements_cons hc, Bool.and_eq_true, Bool.and_eq_true] at hplain
      obtain ⟨⟨hl, hn⟩, hplain⟩ := hplain
      obtain ⟨hreadable, hleaves⟩ := ih hplain (by omega)
      have hlen : x.length ≤ (Row.chars (indentChars L) [] Prod.snd (.item blank n.layout.comments (n, x) n.layout.trailing)).length := by
        simp only [Row.chars, List.length_append]
        omega
      refine ⟨⟨hg.readsRow hmore hn ht (by change x.length < N; omega) fun hb => ?_, hreadable⟩, ?_⟩
      · rw [isBraced_trailing hn hb]
        exact hleaves.endsHere
      · rw [Layout.isPlain, Bool.and_eq_true] at hl
        simp only [Row.chars, List.append_assoc]
        exact hblank (leaves_comments (leaves_indent ((opens_of_plain hn ht).leaves _)) hl.1)

/-- The next token of plain statements starts one of them, or is what ends them. -/
theorem statements_ahead {lead close cs : List Char} {ls : List Text} (hlead : lead.all isGap = true) (hclose : StartsToken close)
    (hplain : plainStatements ns = true) (hls : blockLines L none ns = .ok ls) (hcs : linesText ls = Text.ofChars cs)
    {p : Progress} {gap : List Char} (hgap : gap.all isGap = true) (hp : p.cursor.rest = gap ++ (cs ++ (lead ++ close))) :
    ∃ before c, Ahead p before c ∧ (c.rest = close ∨ ∃ xs r, Opens xs ∧ c.rest = xs ++ r) := by
  obtain ⟨rows, hrows, -, rfl⟩ := rows_of_lines hls hcs (isPlainRow_statements hplain)
  have hopens : ∀ blank above x trailing, Row.item blank above x trailing ∈ rows → Opens x.2 := by
    intro blank above x trailing hmem
    obtain ⟨hx, hc, ht⟩ := item_of_rows hrows hmem
    exact opens_of_plain (plainStatements_mem hplain _ hx hc) ht
  obtain ⟨before, c, ha, hc⟩ := rows_ahead (isIndent_indentChars L) hlead hclose ⟨hp, fun _ => .nil _, hgap⟩
    (rows_sound hrows (isPlainRow_statements hplain)) fun blank above x trailing hmem => (hopens blank above x trailing hmem).startsToken
  refine ⟨before, c, ha, hc.imp_right ?_⟩
  rintro ⟨blank, above, x, trailing, r, hmem, hr⟩
  exact ⟨x.2, r, hopens blank above x trailing hmem, hr⟩

/-- The statements are read back as others that are written the same. -/
structure Restored (L : Nat) (ns ms : List Node) (cs : List Char) : Prop where
  same : List.Forall₂ Node.ReadsAs ns ms
  blanks : blanksAfter none ms = blanksAfter none ns
  text : ∃ ls, blockLines L none ms = .ok ls ∧ linesText ls = Text.ofChars cs

/-- **Statements are read back** up to what ends them. -/
theorem Grammar.ReadsStatements.run (hg : g.ReadsStatements N) {lead close cs : List Char} {ls : List Text}
    (hmore : ∀ {p : Progress} {before : List Concrete} {c : Cursor} {cs r : List Char}, Ahead p before c → Opens cs →
      c.rest = cs ++ r → Reads more p true p)
    (hend : ∀ {p : Progress} {before : List Concrete} {c : Cursor}, Ahead p before c → c.rest = close → Reads more p false p)
    (hlead : lead.all isGap = true) (hclose : StartsToken close) (hleaves : Leaves (lead ++ close))
    (hplain : plainStatements ns = true) (hls : blockLines L none ns = .ok ls) (hcs : linesText ls = Text.ofChars cs)
    (hN : cs.length < N) {p : Progress} {gap : List Char} (hgap : gap.all isGap = true)
    (hp : p.cursor.rest = gap ++ (cs ++ (lead ++ close))) :
    ∃ as q ks gap' ms, Run more g.statement p as q ∧ Pends q.cursor ks gap' (lead ++ close) ∧
      placePast q.cursor ks gap' = p.cursor.past (gap ++ cs) ∧
      sequence (siblings readStatement (as.flatMap Piece.trees ++ ks.trees q.cursor)) = .ok ms ∧ Restored L ns ms cs := by
  obtain ⟨rows, hrows, hblanks, rfl⟩ := rows_of_lines hls hcs (isPlainRow_statements hplain)
  have hsound : rows.all Row.isSound = true := rows_sound hrows (isPlainRow_statements hplain)
  obtain ⟨hreadable, -⟩ := hg.rowsReadable hmore hleaves hrows hplain hN
  have hpends : Pends p.cursor [] gap (rowsChars (indentChars L) [] Prod.snd rows ++ (lead ++ close)) :=
    ⟨hp, fun _ => .nil _, hgap⟩
  obtain ⟨as, q, ks, gap', ss, hrun, -, hq, hplace, hplaced, hss⟩ :=
    rows_run (isIndent_indentChars L) rfl hlead hclose hend hpends hsound hreadable
  obtain ⟨ms, hms, haligned⟩ := sequence_rows hplaced hsound (spaced_of_plain hrows hplain hblanks)
  have hfirst : rows.head?.all (fun row => !row.blank) = true := by
    cases hrows with
    | nil => rfl
    | cons hn =>
      rw [List.map_cons, blanksAfter, List.cons.injEq] at hblanks
      rw [List.head?_cons, Option.all_some, hblanks.1]
      rfl
  refine ⟨as, q, ks, gap', ms, hrun, hq, ?_, ?_, ?_, ?_, ?_⟩
  · rw [hplace, Cursor.past_append]
    rfl
  · rw [hss]
    exact hms
  · exact readsAs_of_rows hrows (isPlainRow_statements hplain) (fun _ _ h => h.1) haligned
  · rw [blanksAfter_of_rows haligned rfl fun _ => hfirst, hblanks]
  · refine lines_of_rows (fun x s hs l => ⟨?_, (statementText_layout _ _ _).trans hs.2.2⟩) haligned rfl (fun _ => hfirst) hsound
    cases s <;> first | rfl | exact hs.2.1

end

/-! ## Blocks -/

section

variable {L N : Nat} {g : Grammar} {p : Progress} {before : List Concrete} {c : Cursor} {body : List Node} {bs r : List Char}

/-- A block is read back as one that is written the same. -/
structure BlockRestored (L : Nat) (ns ms : List Node) (bs : List Char) : Prop where
  same : List.Forall₂ Node.ReadsAs ns ms
  blanks : blanksAfter none ms = blanksAfter none ns
  text : BlockChars L ms bs

theorem Opens.signAt_eq {cs : List Char} (h : Opens cs) (r : List Char) : signAt (cs ++ r) = "" := by
  obtain ⟨ch, ds, rfl, hch⟩ := h.head
  refine signAt_eq_empty ?_
  rw [opensStatement, Bool.or_eq_true, Bool.or_eq_true, beq_iff_eq, beq_iff_eq] at hch
  rcases hch with (hch | rfl) | rfl
  · exact not_mem_signHeads hch
  · decide
  · decide

/-- The end of a statement that no sign marks adds nothing to a node. -/
theorem node_unmarked (k : Kind) (first : Piece) (ps : List Piece) :
    Piece.node k (first :: ps ++ [{ tree? := none }]) = Piece.node k (first :: ps) := by
  have hend : Piece.trees { tree? := none } = [] := rfl
  rw [List.cons_append, Piece.node, Piece.node, List.flatMap_append, List.flatMap_singleton, hend, List.append_nil]

/-- The tree of a block. -/
def blockTree (c d : Cursor) (all : List Concrete) : Concrete :=
  .node .block none ⟨c, d.past ['\x7d']⟩ (signTree '\x7b' c :: (all ++ [signTree '\x7d' d]))

/-- A block is recognised when its statements are. -/
theorem block_run (ha : Ahead p before c) (hc : c.rest = '\x7b' :: r) {as : List Piece} {q : Progress} {between : List Concrete}
    {d : Cursor} {s : List Char} (hrun : Run (moreItems '\x7d') g.statement ⟨c.past ['\x7b'], false⟩ as q) (hd : Ahead q between d)
    (hs : d.rest = '\x7d' :: s) (hend : endsHere true s = true) :
    Reads (block g true) p ⟨before, some (blockTree c d (as.flatMap Piece.trees ++ between))⟩ ⟨d.past ['\x7d'], false⟩ := by
  have hopen := sign_reads '\x7b' ha (by rw [hc]; rfl)
  have hclose := sign_reads '\x7d' hd (by rw [hs]; rfl)
  refine hopen.bind (hrun.many.bind (hclose.bind ?_))
  have hrest : (d.past ['\x7d']).rest = s := Cursor.rest_past hs
  refine (optionalEnd_some (p := ⟨d.past ['\x7d'], true⟩) (by rw [hrest]; exact hend)).bind ?_
  rw [List.cons_append, node_unmarked, ← List.cons_append, node_between]
  exact .pure _ _

/-- **A block is read back.** -/
theorem block_reads (hg : g.ReadsStatements N) (hbs : BlockChars L body bs) (hplain : plainStatements body = true)
    (hN : bs.length ≤ N) (ha : Ahead p before c) (hc : c.rest = bs ++ r) (hr : endsHere true r = true) :
    ∃ d all ms, Reads (block g true) p ⟨before, some (blockTree c d all)⟩ ⟨c.past bs, false⟩ ∧ d.past ['\x7d'] = c.past bs ∧
      sequence (readStatements (blockTree c d all).children) = .ok ms ∧ BlockRestored L body ms bs := by
  have hclosed {p : Progress} {before : List Concrete} {c : Cursor} (ha : Ahead p before c) (hc : c.rest = '\x7d' :: r) :
      Reads (moreItems '\x7d') p false p := by
    have hsees : Reads (seesSign (String.singleton '\x7d')) p true p := ha.seesSign (s := "\x7d") (by rw [hc]; rfl) "\x7d"
    exact moreItems_reads hsees
  have hread (c d : Cursor) (all : List Concrete) :
      readStatements (blockTree c d all).children = siblings readStatement all :=
    (readStatements_eq _).trans (Brackets.siblings_signs _ _ _ _)
  cases hbs with
  | empty h =>
    subst h
    have hin : (c.past ['\x7b']).rest = '\x7d' :: r := Cursor.rest_past hc
    have hahead : Ahead ⟨c.past ['\x7b'], false⟩ [] (c.past ['\x7b']) := ahead_here (by rw [hin]; exact startsToken_cons rfl r)
    refine ⟨_, [], [], block_run ha hc (.nil (hclosed hahead hin)) hahead hin hr, rfl, ?_, .nil, rfl, .empty rfl⟩
    rw [hread]
    rfl
  | @lines ls cs h hls hcs =>
    have hin : (c.past ['\x7b']).rest = ['\n'] ++ (cs ++ (indentChars L ++ '\x7d' :: r)) := by
      refine Cursor.rest_past ?_
      rw [hc]
      simp
    simp only [List.length_cons, List.length_append] at hN
    have hmore : ∀ {p : Progress} {before : List Concrete} {c : Cursor} {cs r : List Char}, Ahead p before c → Opens cs →
        c.rest = cs ++ r → Reads (moreItems '\x7d') p true p := by
      intro p before c cs r ha hcs hc
      have hsees : Reads (seesSign (String.singleton '\x7d')) p false p :=
        ha.seesSign (s := "") (by rw [hc, hcs.signAt_eq]) "\x7d"
      exact moreItems_reads hsees
    obtain ⟨as, q, ks, gap, ms, hrun, hq, hplace, hms, hrestored⟩ :=
      hg.run hmore hclosed (isIndent_indentChars L).white (startsToken_cons rfl r)
        (leaves_indent (leaves_token rfl (by decide) rfl)) hplain hls hcs (by omega) rfl
        (p := ⟨c.past ['\x7b'], false⟩) hin
    have hq' := hq.wider (isIndent_indentChars L).white
    have hend : ((q.cursor.past ks.chars).past (gap ++ indentChars L)).past ['\x7d'] =
        c.past ('\x7b' :: '\n' :: (cs ++ (indentChars L ++ ['\x7d']))) := by
      rw [← placePast, placePast_append, hplace]
      change ((((c.past ['\x7b']).past _).past _).past _) = _
      rw [← Cursor.past_append, ← Cursor.past_append, ← Cursor.past_append]
      simp
    obtain ⟨hsame, hblanks, ls', hls', htext⟩ := hrestored
    refine ⟨_, as.flatMap Piece.trees ++ ks.trees q.cursor, ms, ?_, hend, ?_, hsame, hblanks, .lines ?_ hls' htext⟩
    · rw [← hend]
      exact block_run ha hc hrun (hq'.ahead (startsToken_cons rfl r)) hq'.rest_past hr
    · rw [hread]
      exact hms
    · rintro rfl
      cases hsame
      exact h rfl

end

end ApiRoutes.Script
