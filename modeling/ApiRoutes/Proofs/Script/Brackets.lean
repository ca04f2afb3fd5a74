import ApiRoutes.Proofs.Script.Expressions
import ApiRoutes.Proofs.Script.Literals
/-!
# Reading literals

Objects and arrays are read alike: an opening sign, parts with commas between them, a closing sign
(`Brackets`).  Their entries are read back where they were written on one line and where each has a line
of its own (`Brackets.reads`).
-/
namespace ApiRoutes.Script

open Recogniser Grammar

/-! ## Kinds of literals -/

/-- A kind of literals with entries: how they are written, recognised and read. -/
structure Brackets where
  opening : Char
  close : Char
  /-- What stands between the signs and the entries on one line. -/
  pad : List Char
  kind : Kind
  part : Grammar → Recogniser Cover
  build : List Node → Bool → Shape
  read : Concrete → Reading Node
  text : Nat → Node → Outcome Text

namespace Brackets

def objects : Brackets where
  opening := '\x7b'
  close := '\x7d'
  pad := [' ']
  kind := .object
  part := entry
  build := .object
  read := readEntry
  text := entryText

def arrays : Brackets where
  opening := '['
  close := ']'
  pad := []
  kind := .array
  part := item
  build := .array
  read := readExpression
  text := expressionText

/-- A literal is recognised. -/
def recogniser (b : Brackets) (g : Grammar) : Recogniser Cover := do
  let first ← expectSign (String.singleton b.opening)
  let parts ← looseListUpTo (String.singleton b.close) (coverSign ",") (b.part g)
  let last ← expectSign (String.singleton b.close)
  let isPattern := parts.all (·.isBinding)
  return {
    piece := .node b.kind (first :: parts.map (·.piece) ++ [last])
    refusal := firstRefusal parts
    isTarget := isPattern, isPattern, isBinding := isPattern }

/-- What objects and arrays have in common. -/
structure Lawful (b : Brackets) : Prop where
  isBracket : isBracket b.close = true
  pad : b.pad = [] ∨ b.pad = [' ']
  opens : b.opening = '[' ∨ b.opening = '\x7b'
  isValue : b.kind.isValue = true
  quoted : ∀ (l : Layout) (ns : List Node) (inline : Bool), Node.isQuoted ⟨l, b.build ns inline⟩ = false
  target : ∀ (l : Layout) (ns : List Node) (inline : Bool), Node.isTarget ⟨l, b.build ns inline⟩ = false
  primary : ∀ {g : Grammar} {p q : Progress} {before : List Concrete} {c : Cursor} {cov : Cover} {r : List Char},
    Ahead p before c → c.rest = b.opening :: r → Reads (b.recogniser g) p cov q → Reads (primary g) p cov q
  reads : ∀ {sp : Span} {ts : List Concrete} {ms : List Node}, sequence (siblings b.read ts) = .ok ms →
    hasHoles (ts.filter (!·.isComment)) = false →
    readExpression (.node b.kind none sp ts) = .ok (.ofShape (b.build ms (isInline sp ts)))
  empty : ∀ (L : Nat) (l : Layout) (inline : Bool),
    expressionText L ⟨l, b.build [] inline⟩ = .ok (Text.ofChars [b.opening, b.close])
  form : ∀ (L : Nat) (l : Layout) {ns : List Node} (inline : Bool), ns ≠ [] →
    expressionText L ⟨l, b.build ns inline⟩ = literalForm (Text.ofChars [b.opening]) (Text.ofChars [b.close])
      (Text.ofChars b.pad) L (inline && !ns.any needsOwnLine) (ns.mapM (b.text L)) (literalBlocks L (b.text (L + 1)) ns)
  same : ∀ {ns ms : List Node} {i j : Bool}, List.Forall₂ Node.ReadsAs ns ms →
    (b.build ns i).ReadsAs (b.build ms j)
  layout : ∀ (L : Nat) (l : Layout) (s : Shape), b.text L ⟨l, s⟩ = b.text L (.ofShape s)
  comment : ∀ (L : Nat) (c : Comment), (b.text L (.ofShape (.comment c))).toOption = none

theorem expressionText_layout (L : Nat) (l : Layout) (s : Shape) :
    expressionText L ⟨l, s⟩ = expressionText L (.ofShape s) := by
  cases s <;> rfl

theorem lawful_objects : Lawful objects where
  isBracket := rfl
  pad := .inr rfl
  opens := .inr rfl
  isValue := rfl
  quoted _ _ _ := rfl
  target _ _ _ := rfl
  primary ha hc h := by
    refine Reads.bind ha.charsAhead ?_
    rw [hc]
    exact h
  reads {_ ts _} hms _ := by
    replace hms : sequence (readEntries ts) = _ := (congrArg sequence (readEntries_eq ts)).trans hms
    change orKeep _ (do return .object (← sequence (readEntries ts)) _) = _
    rw [hms]
    rfl
  empty _ _ _ := rfl
  form L l ns inline hns := by
    refine (objectText_eq hns).trans ?_
    rw [entryBlocks_eq, entryTexts_eq]
    rfl
  same := .object
  layout L l s := by
    cases s with
    | property k v sh => cases sh <;> rfl
    | _ => exact expressionText_layout L l _
  comment _ _ := rfl

theorem lawful_arrays : Lawful arrays where
  isBracket := rfl
  pad := .inl rfl
  opens := .inl rfl
  isValue := rfl
  quoted _ _ _ := rfl
  target _ _ _ := rfl
  primary ha hc h := by
    refine Reads.bind ha.charsAhead ?_
    rw [hc]
    exact h
  reads {_ ts _} hms hholes := by
    replace hms : sequence (readElements ts) = _ := (congrArg sequence (readElements_eq ts)).trans hms
    change orKeep _ (if hasHoles (ts.filter (!·.isComment)) then _ else do return .array (← sequence (readElements ts)) _) = _
    rw [hholes, hms]
    rfl
  empty _ _ _ := rfl
  form L l ns inline hns := by
    refine (arrayText_eq hns).trans ?_
    rw [elementBlocks_eq, expressionTexts_eq]
    rfl
  same := .array
  layout := expressionText_layout
  comment _ _ := rfl

/-! ## Recognising -/

/-- The tree of a literal, from its children without the signs around them. -/
def tree (b : Brackets) (c d : Cursor) (all : List Concrete) : Concrete :=
  .node b.kind none ⟨c, d.past [b.close]⟩ (signTree b.opening c :: (all ++ [signTree b.close d]))

section

variable {b : Brackets} {g : Grammar} {N L : Nat} {l : Layout} {inline : Bool} {p q : Progress}
  {before between : List Concrete} {c d : Cursor} {r : List Char}

theorem coverSign_reads : ReadsComma (coverSign ",") (fun a : Cover => a.piece) (fun a => a.refusal = none) :=
  fun ha hs => ⟨_, (ha.expectSign hs).bind (.pure _ _), rfl, rfl⟩

theorem Lawful.signAt_opening (hb : b.Lawful) (r : List Char) : signAt (b.opening :: r) = String.singleton b.opening := by
  rcases hb.opens with h | h <;> rw [h] <;> rfl

theorem Lawful.signAt_close (hb : b.Lawful) (r : List Char) : signAt (b.close :: r) = String.singleton b.close := by
  rcases isBracket_iff.1 hb.isBracket with h | h | h <;> rw [h] <;> rfl

theorem Lawful.startsToken_close (hb : b.Lawful) (r : List Char) : StartsToken (b.close :: r) := by
  rcases isBracket_iff.1 hb.isBracket with h | h | h <;> rw [h] <;> exact startsToken_cons rfl r

/-- **A literal is recognised** when its parts are. -/
theorem Lawful.recogniser_reads (hb : b.Lawful) (ha : Ahead p before c) (hc : c.rest = b.opening :: r) {as : List Cover}
    (hlist : Reads (looseListUpTo (String.singleton b.close) (coverSign ",") (b.part g))
      ⟨c.past [b.opening], endsOperand (String.singleton b.opening)⟩ as q)
    (hgood : ∀ a ∈ as, a.refusal = none) (hd : Ahead q between d) {s : List Char} (hs : d.rest = b.close :: s) :
    ∃ cov, Reads (b.recogniser g) p cov ⟨d.past [b.close], true⟩ ∧
      cov.Stands before (b.tree c d ((as.map (·.piece)).flatMap Piece.trees ++ between)) := by
  have hopen := sign_reads b.opening ha (by rw [hc, hb.signAt_opening])
  have hclose := sign_reads b.close hd (by rw [hs, hb.signAt_close])
  have hends : endsOperand (String.singleton b.close) = true := by
    rcases isBracket_iff.1 hb.isBracket with h | h | h <;> rw [h] <;> decide
  rw [hends] at hclose
  refine ⟨_, hopen.bind (hlist.bind (hclose.bind (.pure _ _))), ?_, ?_⟩
  · rw [node_between]
    rfl
  · exact List.findSome?_eq_none_iff.2 hgood

theorem siblings_signs (f : Concrete → Reading Node) (x y : Char) (all : List Concrete) :
    siblings f (signTree x c :: (all ++ [signTree y d])) = siblings f all := by
  have hsign (x : Char) (c : Cursor) : siblingOf (signTree x c) (f (signTree x c)) = [] := siblingOf_token rfl _
  rw [siblings, List.flatMap_cons, List.flatMap_append, List.flatMap_singleton, hsign, hsign, List.append_nil]
  rfl

/-- The tree of a literal is read back when its children are. -/
theorem Lawful.means (hb : b.Lawful) {ns ms : List Node} {cs : List Char} {all : List Concrete}
    (hend : d.past [b.close] = c.past cs) (hms : sequence (siblings b.read all) = .ok ms)
    (hholes : hasHoles ((b.tree c d all).children.filter (!·.isComment)) = false) (hsame : List.Forall₂ Node.ReadsAs ns ms)
    (htext : expressionText L (.ofShape (b.build ms (isInline ⟨c, c.past cs⟩ (b.tree c d all).children))) = .ok (Text.ofChars cs)) :
    (b.tree c d all).Means c cs L ⟨l, b.build ns inline⟩ := by
  refine ⟨by rw [← hend]; rfl, hb.isValue, fun h => ?_, _, ?_, hb.same hsame, htext⟩
  · rw [hb.quoted] at h
    cases h
  · rw [← hend]
    refine hb.reads ((congrArg sequence ?_).trans hms) hholes
    exact siblings_signs _ _ _ _

end

end Brackets

/-! ## On one line -/

theorem needsOwnLine_eq (n : Node) : needsOwnLine n = (n.isComment || !n.isBare) := by
  obtain ⟨⟨comments, trailing, blank⟩, s⟩ := n
  cases s <;> cases comments <;> cases trailing <;> rfl

namespace Brackets

section

variable {b : Brackets} {g : Grammar} {N L : Nat} {l : Layout} {inline : Bool} {p q : Progress}
  {before between : List Concrete} {c d : Cursor} {r : List Char}

theorem Lawful.not_comment (hb : b.Lawful) {s : Shape} {x : Text} (h : b.text L (.ofShape s) = .ok x) (l : Layout) :
    Node.isComment ⟨l, s⟩ = false := by
  cases s with
  | comment k =>
    have := hb.comment L k
    rw [h] at this
    cases this
  | _ => rfl

/-- Items that are read back give nodes that fit on one line. -/
theorem Lawful.items (hb : b.Lawful) {xs : List (Node × List Char)} {ts : List Concrete}
    (h : List.Forall₂ (ReadsBack b.read (b.text L)) xs ts) (hbare : ∀ x ∈ xs, x.1.isBare = true) : ∃ ms : List Node,
      sequence (ts.map fun t => .item t.firstRow t.lastRow (b.read t)) = .ok ms ∧
      List.Forall₂ Node.ReadsAs (xs.map Prod.fst) ms ∧ ms.mapM (b.text L) = .ok ((xs.map Prod.snd).map Text.ofChars) ∧
      ms.any needsOwnLine = false := by
  obtain ⟨ss, hreads, hback⟩ : ∃ ss : List Shape, List.Forall₂ (fun t s => b.read t = .ok (.ofShape s)) ts ss ∧
      List.Forall₂ (fun x s => x.1.shape.ReadsAs s ∧ b.text L (.ofShape s) = .ok (Text.ofChars x.2)) xs ss := by
    clear hbare
    induction h with
    | nil => exact ⟨[], .nil, .nil⟩
    | cons hx _ ih =>
      obtain ⟨s, hread, hs⟩ := hx
      obtain ⟨ss, hreads, hback⟩ := ih
      exact ⟨s :: ss, .cons hread hreads, .cons hs hback⟩
  obtain ⟨ms, hms, hnodes⟩ := sequence_items hreads
  refine ⟨ms, hms, ?_⟩
  clear hms hreads h
  induction hback generalizing ms with
  | nil =>
    cases hnodes
    exact ⟨.nil, rfl, rfl⟩
  | @cons x s xs ss hs _ ih =>
    obtain ⟨hsame, htext⟩ := hs
    obtain ⟨hx, hbare⟩ := List.forall_mem_cons.1 hbare
    obtain _ | ⟨hn, hnodes⟩ := hnodes
    obtain ⟨blank, rfl⟩ := hn
    obtain ⟨hsames, htexts, hown⟩ := ih hbare _ hnodes
    refine ⟨.cons ?_ hsames, ?_, ?_⟩
    · obtain ⟨⟨⟨comments, trailing, _⟩, s'⟩, _⟩ := x
      rw [Node.isBare, Layout.isBare, Bool.and_eq_true, List.isEmpty_iff, Option.isNone_iff_eq_none] at hx
      exact .mk hx.1.symm hx.2.symm hsame
    · rw [List.mapM_cons, hb.layout, htext, htexts]
      rfl
    · rw [List.any_cons, hown, needsOwnLine_eq, hb.not_comment htext]
      rfl

theorem any_lineFeed (cs : List Char) : ((Text.ofChars cs).any fun c => c == '\n') = decide ('\n' ∈ cs) := by
  induction cs with
  | nil => rfl
  | cons c cs ih =>
    rw [Text.ofChars, List.map_cons, List.any_cons, ← Text.ofChars, ih]
    by_cases h : c = '\n'
    · simp [h]
    · have h' : '\n' ≠ c := fun e => h e.symm
      simp [h, h']

theorem noLineEnd_iff : ∀ {xs : List (List Char)}, NoLineEnd (xs.map Text.ofChars) ↔ '\n' ∉ joinChars xs
  | [] => by simp [NoLineEnd, joinChars]
  | [x] => by simp [NoLineEnd, joinChars, -List.any_eq_false, any_lineFeed]
  | x :: y :: xs => by
    have ih := @noLineEnd_iff (y :: xs)
    rw [NoLineEnd] at ih ⊢
    rw [List.map_cons, List.any_cons, Bool.or_eq_false_iff, ih, any_lineFeed, joinChars]
    simp

/-- The text of a literal whose entries fit on one line. -/
theorem Lawful.text_oneLine (hb : b.Lawful) {ms : List Node} {xs : List (List Char)} {pad : List Char}
    (hms : ms.mapM (b.text L) = .ok (xs.map Text.ofChars)) (hown : ms.any needsOwnLine = false)
    (hline : '\n' ∉ joinChars xs) (hform : (xs = [] → pad = []) ∧ (xs ≠ [] → pad = b.pad)) :
    expressionText L ⟨l, b.build ms true⟩ = .ok (Text.ofChars (b.opening :: (pad ++ (joinChars xs ++ (pad ++ [b.close]))))) := by
  cases ms with
  | nil =>
    obtain rfl : xs = [] := List.map_eq_nil_iff.1 (Except.ok.inj hms).symm
    rw [hb.empty, hform.1 rfl]
    rfl
  | cons m ms =>
    have hne : xs ≠ [] := by
      rintro rfl
      rw [List.mapM_cons] at hms
      obtain ⟨t, -, hms⟩ := bind_eq_ok.1 hms
      obtain ⟨ts, -, hms⟩ := bind_eq_ok.1 hms
      cases hms
    rw [hb.form L l true (List.cons_ne_nil _ _), hown, hms, hform.2 hne]
    refine (literalForm_oneLine (noLineEnd_iff.2 hline)).trans ?_
    rw [joinWith_chars, ← Text.ofChars_append, ← Text.ofChars_append, ← Text.ofChars_append, ← Text.ofChars_append]
    simp

theorem Lawful.opening_ne (hb : b.Lawful) : b.opening ≠ '\n' := by
  rcases hb.opens with h | h <;> rw [h] <;> decide

theorem Lawful.close_ne (hb : b.Lawful) : b.close ≠ '\n' := by
  rcases isBracket_iff.1 hb.isBracket with h | h | h <;> rw [h] <;> decide

/-- **A literal on one line is read back.** -/
theorem Lawful.oneLine (hb : b.Lawful) {xs : List (Node × List Char)} {pad cs : List Char} (hpad : pad = [] ∨ pad = [' '])
    (hform : (xs = [] → pad = []) ∧ (xs ≠ [] → pad = b.pad))
    (hxs : ∀ x ∈ xs, ReadsItem b.close (b.part g) (·.piece) (·.refusal = none) Prod.snd (ReadsBack b.read (b.text L)) x)
    (hbare : ∀ x ∈ xs, x.1.isBare = true) (hline : '\n' ∉ joinChars (xs.map Prod.snd)) (ha : Ahead p before c)
    (hcs : cs = b.opening :: (pad ++ (joinChars (xs.map Prod.snd) ++ (pad ++ [b.close])))) (hc : c.rest = cs ++ r) :
    ∃ cov t, Reads (b.recogniser g) p cov ⟨c.past cs, true⟩ ∧ cov.Stands before t ∧
      t.Means c cs L ⟨l, b.build (xs.map Prod.fst) inline⟩ := by
  have hopen : c.rest = b.opening :: (pad ++ (joinChars (xs.map Prod.snd) ++ (pad ++ b.close :: r))) := by
    rw [hc, hcs]
    simp
  have hin : (c.past [b.opening]).rest = pad ++ (joinChars (xs.map Prod.snd) ++ (pad ++ b.close :: r)) :=
    Cursor.rest_past hopen
  obtain ⟨as, ts, e, hlist, hback, hall, hgood⟩ := looseListUpTo_reads hb.isBracket coverSign_reads hpad hpad
    hform.1 hxs
    (p := ⟨c.past [b.opening], endsOperand (String.singleton b.opening)⟩) hin
  have hafter : ((c.past [b.opening]).past (pad ++ joinChars (xs.map Prod.snd))).rest = pad ++ b.close :: r := by
    rw [← List.append_assoc] at hin
    exact Cursor.rest_past hin
  have hwhite : pad.all isGap = true := by rcases hpad with rfl | rfl <;> rfl
  obtain ⟨d, hahead, hd, hend⟩ : ∃ d : Cursor,
      Ahead ⟨(c.past [b.opening]).past (pad ++ joinChars (xs.map Prod.snd)), e⟩ [] d ∧ d.rest = b.close :: r ∧
      d.past [b.close] = c.past cs := by
    refine ⟨_, ahead_gap hafter hwhite (hb.startsToken_close r), Cursor.rest_past hafter, ?_⟩
    change (((c.past [b.opening]).past (pad ++ joinChars (xs.map Prod.snd))).past pad).past [b.close] = _
    rw [← Cursor.past_append, ← Cursor.past_append, ← Cursor.past_cons, hcs]
    simp
  obtain ⟨cov, hread, hstands⟩ := hb.recogniser_reads ha hopen hlist hgood hahead hd
  rw [hend] at hread
  obtain ⟨ms, hms, hsames, htexts, hown⟩ := hb.items hback hbare
  rw [List.append_nil] at hstands
  generalize (as.map fun a => a.piece).flatMap Piece.trees = all at hall hstands
  have hclose : (signTree b.close d).kind = .token (String.singleton b.close) := rfl
  have hno : (b.tree c d all).children.any Concrete.isComment = false := by
    rw [tree, Concrete.children, List.any_cons, hall.noComments hclose]
    rfl
  have hbreak : '\n' ∉ cs := by
    have hpad' : '\n' ∉ pad := by rcases hpad with rfl | rfl <;> decide
    rw [hcs]
    simp only [List.mem_cons, List.mem_append, List.not_mem_nil, or_false, not_or]
    exact ⟨hb.opening_ne.symm, hpad', hline, hpad', hb.close_ne.symm⟩
  have hinline : isInline ⟨c, c.past cs⟩ (b.tree c d all).children = true := by
    rw [isInline, Span.isMultiline_past hc, hno, List.contains_eq_mem, decide_eq_false hbreak]
    rfl
  refine ⟨cov, _, hread, hstands, hb.means hend ?_ ?_ hsames ?_⟩
  · rw [hall.siblings, hms]
  · have hfilter : (b.tree c d all).children.filter (!·.isComment) = (b.tree c d all).children :=
      List.filter_eq_self.2 fun t ht => by simpa using List.any_eq_false.1 hno t ht
    rw [hfilter]
    exact hall.not_hasHoles (by rcases isBracket_iff.1 hb.isBracket with h | h | h <;> rw [hclose, h] <;> rfl) _
  · rw [hinline, hcs]
    refine hb.text_oneLine htexts hown hline ?_
    rwa [ne_eq, List.map_eq_nil_iff]

end

end Brackets

/-! ## In rows -/

/-- The trees of the parts of a literal. -/
def partTrees (as : List Cover) : List Concrete := (as.map fun a => a.piece).flatMap Piece.trees

/-- The parts are an item after some comments, and a comma. -/
def IsRowPart (as : List Cover) : Prop :=
  (∀ a ∈ as, a.refusal = none) ∧ ∃ before t comma, before.all Concrete.isComment = true ∧ t.kind.isValue = true ∧
    comma.kind = .token "," ∧ partTrees as = before ++ [t, comma]

theorem partTrees_flatten : ∀ parts : List (List Cover), partTrees parts.flatten = parts.flatMap partTrees
  | [] => rfl
  | as :: parts => by
    rw [List.flatten_cons, List.flatMap_cons, ← partTrees_flatten parts, partTrees, List.map_append, List.flatMap_append]
    rfl

/-- Every item of rows has a comma after it. -/
theorem not_hasHoles_rows {between : List Concrete} {close : Concrete} (hbetween : between.all Concrete.isComment = true)
    (hclose : (close.kind == .token ",") = false) (hclose' : close.isComment = false) : ∀ {parts : List (List Cover)} (a : Concrete),
    (∀ as ∈ parts, IsRowPart as) →
      hasHoles (a :: (parts.flatMap partTrees ++ between ++ [close]).filter (!·.isComment)) = false
  | [], a, _ => by
    have hno : between.filter (!·.isComment) = [] :=
      List.filter_eq_nil_iff.2 fun t ht => by simpa using List.all_eq_true.1 hbetween t ht
    rw [List.flatMap_nil, List.nil_append, List.filter_append, hno, List.filter_singleton, hclose']
    simp [hasHoles, hclose]
  | as :: parts, a, h => by
    obtain ⟨has, h⟩ := List.forall_mem_cons.1 h
    obtain ⟨-, before, t, comma, hbefore, ht, hcomma, htrees⟩ := has
    have hno : before.filter (!·.isComment) = [] :=
      List.filter_eq_nil_iff.2 fun t ht => by simpa using List.all_eq_true.1 hbefore t ht
    have hitem : [t, comma].filter (!·.isComment) = [t, comma] := by
      have hc : comma.isComment = false := by rw [Concrete.isComment, hcomma]; rfl
      rw [List.filter_eq_self]
      simp [(Kind.isValue_named ht).1, hc]
    have hvalue (s : String) : (t.kind == .token s) = false := beq_eq_false_iff_ne.2 fun e => by rw [e] at ht; cases ht
    have ih := not_hasHoles_rows hbetween hclose hclose' comma h
    rw [List.flatMap_cons, htrees, List.append_assoc, List.append_assoc, List.append_assoc, List.filter_append, hno,
      List.nil_append, List.filter_append, hitem, ← List.append_assoc]
    change hasHoles (a :: t :: comma :: ((parts.flatMap partTrees ++ between ++ [close]).filter (!·.isComment))) = false
    rw [hasHoles, hasHoles, hvalue, hvalue, ih]
    simp

/-- The nodes that are read for rows are written as the nodes that the rows are of. -/
theorem readsAs_of_rows {text : Node → Outcome Text} {ns : List Node} {rows : List (Row (Node × List Char))}
    (hrows : List.Forall₂ (RowOf text) ns rows) (hplain : ns.all Node.isPlainRow = true) {P : Node × List Char → Shape → Prop}
    (hP : ∀ x s, P x s → x.1.shape.ReadsAs s) {first : Bool} {ms : List Node} (h : Aligned (NodeOf P) first rows ms) :
    List.Forall₂ Node.ReadsAs ns ms := by
  induction hrows generalizing first ms with
  | nil =>
    cases h
    exact .nil
  | @cons n row ns rows hn _ ih =>
    rw [List.all_cons, Bool.and_eq_true] at hplain
    obtain _ | ⟨hm, hms⟩ := h
    refine .cons ?_ (ih hplain.2 hms)
    cases hn with
    | @comment _ l c =>
      have hbare : l.isBare = true := (Bool.and_eq_true_iff.1 (hplain.1 : (c.isSound && l.isBare) = true)).2
      rw [Layout.isBare, Bool.and_eq_true, List.isEmpty_iff, Option.isNone_iff_eq_none] at hbare
      cases hm
      exact .mk hbare.1.symm hbare.2.symm (.comment c)
    | item =>
      obtain ⟨l, s⟩ := n
      cases hm with
      | item hs => exact .mk rfl rfl (hP _ _ hs)

theorem rows_sound {text : Node → Outcome Text} {ns : List Node} {rows : List (Row (Node × List Char))}
    (hrows : List.Forall₂ (RowOf text) ns rows) (hplain : ns.all Node.isPlainRow = true) :
    rows.all Row.isSound = true := by
  induction hrows with
  | nil => rfl
  | cons hn _ ih =>
    rw [List.all_cons, Bool.and_eq_true] at hplain
    rw [List.all_cons, hn.isSound hplain.1, ih hplain.2]
    rfl

namespace Brackets

section

variable {b : Brackets} {g : Grammar} {N L : Nat} {l : Layout} {inline : Bool} {p q : Progress}
  {before between : List Concrete} {c d : Cursor} {r : List Char}

/-- A part of a literal is read as an item of a row. -/
theorem Lawful.readsRow (hb : b.Lawful) {x : Node × List Char}
    (hx : ReadsItem b.close (b.part g) (·.piece) (·.refusal = none) Prod.snd (ReadsBack b.read (b.text L)) x) (r : List Char) :
    ReadsRow (moreItems b.close) (listPart b.close (coverSign ",") (b.part g)) partTrees b.read [','] Prod.snd IsRowPart
      (fun x v => ∃ s, v = .ok (.ofShape s) ∧ x.1.shape.ReadsAs s ∧ b.text L (.ofShape s) = .ok (Text.ofChars x.2)) x r := by
  refine ⟨hx.1.ne_nil, (hx.1 _).1, fun {p before c} ha hbefore hc => ?_⟩
  obtain ⟨a, a', t, hmore, hpart, hpiece', hgood', hpiece, hgood, hspan, hvalue, s, hread, hs⟩ :=
    part_more listPart_reads hb.isBracket coverSign_reads hx ha hc
  have htrees : partTrees [a, a'] = before ++ [t, .node (.token ",") none ⟨c.past x.2, (c.past x.2).past [',']⟩ []] := by
    change a.piece.trees ++ (a'.piece.trees ++ []) = _
    rw [hpiece, hpiece']
    exact List.append_assoc _ _ _
  refine ⟨[a, a'], false, b.read t, hmore, hpart, ⟨?_, before, t, _, hbefore, hvalue, rfl, htrees⟩, ⟨s, hread, hs⟩, ?_⟩
  · simp [hgood, hgood']
  · have hitem : siblings b.read [t, .node (.token ",") none ⟨c.past x.2, (c.past x.2).past [',']⟩ []] =
        [.item t.firstRow t.lastRow (b.read t)] := by
      rw [siblings, List.flatMap_cons, List.flatMap_singleton, siblingOf_value hvalue, siblingOf_token rfl]
      rfl
    rw [htrees, siblings_append, hitem, Concrete.firstRow, Concrete.lastRow, hspan]
    change _ ++ [Sibling.item c.row (c.past x.2).row (b.read t)] = _
    rw [Cursor.row_past hc]

/-- The text of a literal with a line for each entry. -/
theorem Lawful.text_manyLines (hb : b.Lawful) {rows : List (Row (Node × List Char))} {ms : List Node}
    (h : Aligned (NodeOf fun x s => x.1.shape.ReadsAs s ∧ b.text (L + 1) (.ofShape s) = .ok (Text.ofChars x.2)) true rows ms)
    (hsound : rows.all Row.isSound = true) (hblank : rows.all (fun row => !row.blank) = true) (hne : rows ≠ []) :
    expressionText L ⟨l, b.build ms false⟩ = .ok (Text.ofChars (b.opening :: '\n' ::
      (rowsChars (indentChars (L + 1)) [','] Prod.snd rows ++ (indentChars L ++ [b.close])))) := by
  obtain ⟨bs, hbs, htext⟩ := blocks_of_rows
    (fun x s hs l => ⟨hb.not_comment hs.2 l, (hb.layout _ l s).trans hs.2⟩) h hsound hblank
  have hms : ms ≠ [] := by
    rintro rfl
    cases h
    exact hne rfl
  rw [hb.form L l false hms, hbs]
  refine literalForm_manyLines.trans (congrArg Except.ok ?_)
  rw [onManyLines_eq, htext, indentation_eq, ← Text.ofChars_append]
  change Text.ofChars [b.opening] ++ Text.ofChars ['\n'] ++ _ ++ _ = _
  rw [← Text.ofChars_append, ← Text.ofChars_append, ← Text.ofChars_append]
  rfl

/-- **A literal with a line for each entry is read back.** -/
theorem Lawful.manyLines (hb : b.Lawful) {ns : List Node} {rows : List (Row (Node × List Char))} {cs : List Char}
    (hrows : List.Forall₂ (RowOf (b.text (L + 1))) ns rows) (hblank : rows.all (fun row => !row.blank) = true) (hne : ns ≠ []) (hplain : ns.all Node.isPlainRow = true)
    (hspaced : spaced rows = true)
    (hitems : ∀ blank above x trailing, .item blank above x trailing ∈ rows →
      ReadsItem b.close (b.part g) (·.piece) (·.refusal = none) Prod.snd (ReadsBack b.read (b.text (L + 1))) x)
    (ha : Ahead p before c)
    (hcs : cs = b.opening :: '\n' :: (rowsChars (indentChars (L + 1)) [','] Prod.snd rows ++ (indentChars L ++ [b.close])))
    (hc : c.rest = cs ++ r) : ∃ cov t, Reads (b.recogniser g) p cov ⟨c.past cs, true⟩ ∧ cov.Stands before t ∧
      t.Means c cs L ⟨l, b.build ns inline⟩ := by
  have hopen : c.rest = b.opening :: '\n' :: (rowsChars (indentChars (L + 1)) [','] Prod.snd rows ++
      (indentChars L ++ b.close :: r)) := by
    rw [hc, hcs]
    simp
  obtain ⟨p₁, hp₁⟩ : ∃ p₁ : Progress, p₁ = ⟨c.past [b.opening], endsOperand (String.singleton b.opening)⟩ := ⟨_, rfl⟩
  have hpends : Pends p₁.cursor [] ['\n'] (rowsChars (indentChars (L + 1)) [','] Prod.snd rows ++
      (indentChars L ++ b.close :: r)) := ⟨hp₁ ▸ Cursor.rest_past hopen, fun _ => .nil _, rfl⟩
  have hclosed : ∀ {p : Progress} {before : List Concrete} {c : Cursor}, Ahead p before c → c.rest = b.close :: r →
      Reads (moreItems b.close) p false p := by
    intro p before c ha hc
    have hsees := ha.seesSign (by rw [hc, hb.signAt_close]) (String.singleton b.close)
    rw [beq_self_eq_true] at hsees
    exact moreItems_reads hsees
  have hsound : rows.all Row.isSound = true := rows_sound hrows hplain
  obtain ⟨parts, q, ks, gap, ss, hrun, hgood, hq, hplace, hplaced, hss⟩ :=
    rows_run (isIndent_indentChars (L + 1)) rfl (isIndent_indentChars L).white (hb.startsToken_close r) hclosed hpends hsound
      (rowsReadable_of fun blank above x trailing hmem => hb.readsRow (hitems blank above x trailing hmem))
  have hq' := hq.wider (isIndent_indentChars L).white
  have hlist : Reads (looseListUpTo (String.singleton b.close) (coverSign ",") (b.part g)) p₁ parts.flatten q :=
    hrun.many.bind (.pure _ _)
  rw [hp₁] at hlist
  obtain ⟨cov, hread, hstands⟩ := hb.recogniser_reads ha hopen hlist
    (fun a ha => by
      obtain ⟨as, has, ha⟩ := List.mem_flatten.1 ha
      exact (hgood as has).1 a ha)
    (hq'.ahead (hb.startsToken_close r)) hq'.rest_past
  have hend : ((q.cursor.past ks.chars).past (gap ++ indentChars L)).past [b.close] = c.past cs := by
    rw [← placePast, placePast_append, hplace, placePast, hp₁]
    change ((((c.past [b.opening]).past ['\n']).past _).past _).past _ = _
    rw [← Cursor.past_append, ← Cursor.past_append, ← Cursor.past_append, ← Cursor.past_append, hcs]
    simp
  rw [hend] at hread
  obtain ⟨ms, hms, haligned⟩ := sequence_rows hplaced hsound hspaced
  refine ⟨cov, _, hread, hstands, hb.means hend ?_ ?_ (readsAs_of_rows hrows hplain (fun _ _ h => h.1) haligned) ?_⟩
  · rw [← partTrees, partTrees_flatten, hss]
    exact hms
  · rw [← partTrees, partTrees_flatten]
    refine not_hasHoles_rows (Interlude.trees_isComment _ _) ?_ rfl _ hgood
    rcases isBracket_iff.1 hb.isBracket with h | h | h <;> rw [h] <;> rfl
  · have hbreak : '\n' ∈ cs := by
      rw [hcs]
      exact List.mem_cons_of_mem _ List.mem_cons_self
    rw [isInline, Span.isMultiline_past hc, List.contains_eq_mem, decide_eq_true hbreak, hcs]
    exact hb.text_manyLines haligned hsound hblank (by rintro rfl; cases hrows; exact hne rfl)

end

end Brackets

/-! ## Literals -/

section

variable {text : Node → Outcome Text} {ns : List Node} {rows : List (Row (Node × List Char))}

theorem RowOf.isComment_eq {n : Node} {row : Row (Node × List Char)} (h : RowOf text n row) :
    row.isComment = n.isComment := by
  cases h with
  | comment => rfl
  | item hn => exact hn.symm

theorem spaced_of_items (hrows : List.Forall₂ (RowOf text) ns rows) (h : ∀ n ∈ ns, n.isComment = false) :
    spaced rows = true := by
  induction hrows with
  | nil => rfl
  | cons hn _ ih =>
    rw [List.forall_mem_cons] at h
    rw [spaced, ih h.2, hn.isComment_eq, h.1]
    rfl

/-- The items of rows are nodes with their texts. -/
theorem item_of_rows (hrows : List.Forall₂ (RowOf text) ns rows) {b : Bool} {above : List Comment} {x : Node × List Char}
    {trailing : Option Comment} (h : .item b above x trailing ∈ rows) :
    x.1 ∈ ns ∧ x.1.isComment = false ∧ text x.1 = .ok (Text.ofChars x.2) := by
  induction hrows with
  | nil => cases h
  | cons hn _ ih =>
    rcases List.mem_cons.1 h with rfl | h
    · cases hn with
      | item hc hx => exact ⟨List.mem_cons_self, hc, hx⟩
    · exact (ih h).imp_left (List.mem_cons_of_mem _)

end

namespace Brackets

section

variable {b : Brackets} {g : Grammar} {L : Nat} {l : Layout} {inline : Bool} {p : Progress}
  {before : List Concrete} {c : Cursor} {ns : List Node} {cs r : List Char}

/-- What a literal is written as: its entries on one line, or each on a line of its own. -/
theorem Lawful.chars (hb : b.Lawful) (hplain : ns.all Node.isPlainRow = true)
    (ht : expressionText L ⟨l, b.build ns inline⟩ = .ok (Text.ofChars cs)) :
    (∃ (xs : List (Node × List Char)) (pad : List Char), xs.map Prod.fst = ns ∧ (pad = [] ∨ pad = [' ']) ∧
      ((xs = [] → pad = []) ∧ (xs ≠ [] → pad = b.pad)) ∧
      (∀ x ∈ xs, x.1.isComment = false ∧ x.1.isBare = true ∧ b.text L x.1 = .ok (Text.ofChars x.2)) ∧
      '\n' ∉ joinChars (xs.map Prod.snd) ∧
      cs = b.opening :: (pad ++ (joinChars (xs.map Prod.snd) ++ (pad ++ [b.close])))) ∨
    ∃ rows, ns ≠ [] ∧ List.Forall₂ (RowOf (b.text (L + 1))) ns rows ∧ rows.all (fun row => !row.blank) = true ∧
      cs = b.opening :: '\n' :: (rowsChars (indentChars (L + 1)) [','] Prod.snd rows ++ (indentChars L ++ [b.close])) := by
  cases hne : ns with
  | nil =>
    rw [hne, hb.empty] at ht
    refine .inl ⟨[], [], rfl, .inl rfl, ⟨fun _ => rfl, fun h => absurd rfl h⟩, nofun, nofun, ?_⟩
    exact (Text.ofChars_inj (Except.ok.inj ht)).symm
  | cons n ns' =>
    rw [← hne]
    have hns : ns ≠ [] := by rw [hne]; exact List.cons_ne_nil _ _
    rw [hb.form L l inline hns] at ht
    obtain ⟨ts, hfits, hts, hline, heq⟩ | ⟨bs, hbs, heq⟩ := literalForm_ok ht
    · left
      obtain ⟨y, rfl, hy⟩ := Text.ofChars_of_append_chars [b.close] heq.symm
      obtain ⟨z, rfl, hz⟩ := Text.ofChars_of_append_chars b.pad hy
      rw [← Text.ofChars_append] at hz
      obtain ⟨w, rfl, hw⟩ := Text.ofChars_of_chars_append ([b.opening] ++ b.pad) hz
      obtain ⟨zs, rfl, rfl⟩ := joinChars_of_joinWith hw
      obtain ⟨xs, hfst, hsnd, hxs⟩ := forall₂_pairs (List.forall₂_map_right_iff.1 (mapM_eq_ok.1 hts))
      rw [Bool.and_eq_true, Bool.not_eq_true'] at hfits
      rw [noLineEnd_iff] at hline
      refine ⟨xs, b.pad, hfst, hb.pad, ⟨fun h => ?_, fun _ => rfl⟩, fun x hx => ?_, hsnd ▸ hline, ?_⟩
      · rw [h] at hfst
        exact absurd hfst.symm hns
      · have hown := List.any_eq_false.1 hfits.2 x.1 (hfst ▸ List.mem_map_of_mem hx)
        rw [needsOwnLine_eq, Bool.or_eq_true, not_or, Bool.not_eq_true, Bool.not_eq_true, Bool.not_eq_false'] at hown
        exact ⟨hown.1, hown.2, hxs x hx⟩
      · rw [hsnd]
        simp
    · right
      rw [onManyLines_eq, indentation_eq] at heq
      rw [← Text.ofChars_append] at heq
      obtain ⟨y, rfl, hy⟩ := Text.ofChars_of_append_chars (indentChars L ++ [b.close]) heq.symm
      obtain ⟨z, rfl, hz⟩ := Text.ofChars_of_chars_append [b.opening, '\n'] hy
      obtain ⟨rows, hrows, hblank, rfl⟩ := rows_of_blocks hbs hz hplain
      exact ⟨rows, hns, hrows, hblank, by simp⟩

/-- **A literal is read back** when its entries are. -/
theorem Lawful.reads_literal (hb : b.Lawful) (hplain : ns.all Node.isPlainRow = true) (hentries : ∀ n ∈ ns, n.isComment = false)
    (hitems : ∀ {n : Node} {M : Nat} {x : List Char}, n ∈ ns → b.text M n = .ok (Text.ofChars x) →
      x.length < cs.length →
      ReadsItem b.close (b.part g) (·.piece) (·.refusal = none) Prod.snd (ReadsBack b.read (b.text M)) (n, x))
    (ht : expressionText L ⟨l, b.build ns inline⟩ = .ok (Text.ofChars cs)) (ha : Ahead p before c) (hc : c.rest = cs ++ r)
    (hr : Closes r) :
    ∃ cov t, Reads (coverFrom g) p cov ⟨c.past cs, true⟩ ∧ cov.Stands before t ∧ t.Means c cs L ⟨l, b.build ns inline⟩ := by
  obtain ⟨cov, t, hread, hstands, hmeans⟩ : ∃ cov t, Reads (b.recogniser g) p cov ⟨c.past cs, true⟩ ∧ cov.Stands before t ∧
      t.Means c cs L ⟨l, b.build ns inline⟩ := by
    obtain ⟨xs, pad, rfl, hpad, hform, hxs, hline, hcs⟩ | ⟨rows, hns, hrows, hblank, hcs⟩ := hb.chars hplain ht
    · refine hb.oneLine hpad hform (fun x hx => ?_) (fun x hx => (hxs x hx).2.1) hline ha hcs hc
      obtain ⟨-, -, hx'⟩ := hxs x hx
      refine hitems (List.mem_map_of_mem hx) hx' ?_
      have := length_le_joinChars x.2 (List.mem_map_of_mem hx)
      rw [hcs]
      simp only [List.length_cons, List.length_append]
      omega
    · refine hb.manyLines hrows hblank hns hplain (spaced_of_items hrows hentries) (fun blank above x trailing hmem => ?_) ha hcs hc
      obtain ⟨hx, -, hx'⟩ := item_of_rows hrows hmem
      refine hitems hx hx' ?_
      have := length_le_rowsChars (indentChars (L + 1)) [','] Prod.snd hmem
      rw [hcs]
      simp only [List.length_cons, List.length_append]
      omega
  have hopen : ∃ s, c.rest = b.opening :: s := by
    obtain ⟨xs, pad, -, -, -, -, -, rfl⟩ | ⟨rows, -, -, -, rfl⟩ := hb.chars hplain ht
    · exact ⟨_, hc⟩
    · exact ⟨_, hc⟩
  obtain ⟨s, hs⟩ := hopen
  have hstart : StartsOperand c.rest := by
    rw [hs]
    have hne : b.opening ≠ '\\' ∧ isWordPart b.opening = false ∧ String.singleton b.opening ∈ ["", "[", "\x7b"] := by
      rcases hb.opens with h | h <;> rw [h] <;> decide
    exact startsOperand_cons (by rw [hb.signAt_opening]; exact hne.2.2) (.inl hne.2.1) hne.1
  refine cover_of_operand hstart ha ⟨cov, ⟨c.past cs, true⟩, cov, t, hb.primary ha hs hread, .refl, hstands, hmeans, fun h => ?_⟩ hc hr
  rw [hb.target] at h
  cases h

end

end Brackets

end ApiRoutes.Script
