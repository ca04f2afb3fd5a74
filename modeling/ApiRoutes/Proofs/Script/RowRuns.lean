import Mathlib.Data.List.TakeWhile
import ApiRoutes.Proofs.Script.Rows
/-!
# Reading rows

Rows are read one after the other (`rows_run`): the comments above an item stand before its first token,
and the one after it before the next.
-/
namespace ApiRoutes.Script

open Recogniser

/-! ## Comments -/

variable {cs r : List Char}

theorem blockLength?_past {n : Nat} (h : blockLength? cs = some n) (r : List Char) :
    blockLength? (cs ++ r) = some n := by
  fun_induction blockLength? cs generalizing n with
  | case1 => exact h
  | case2 c rest hne ih =>
    obtain ⟨m, hm, rfl⟩ := Option.map_eq_some_iff.1 h
    rw [List.cons_append, blockLength?, ih hm]
    · rfl
    · intro rest' hc heq
      cases rest with
      | nil => cases hm
      | cons d rest =>
        rw [List.cons_append, List.cons.injEq] at heq
        exact hne rest hc (by rw [heq.1])
  | case3 => cases h

theorem commentLength?_past (h : commentLength? cs = some cs.length) (r : List Char) :
    commentLength? (cs ++ '\n' :: r) = some cs.length := by
  unfold commentLength? at h
  split at h
  · rename_i ds
    have hlen : (ds.takeWhile fun c => !isBreak c && c != '\r').length = ds.length := by
      have := Option.some.inj h
      rw [List.length_cons, List.length_cons] at this
      omega
    have hall : ds.takeWhile (fun c => !isBreak c && c != '\r') = ds :=
      (List.takeWhile_sublist _).eq_of_length hlen
    have hds : ∀ c ∈ ds, (!isBreak c && c != '\r') = true := List.takeWhile_eq_self_iff.1 hall
    change some (2 + ((ds ++ '\n' :: r).takeWhile fun c => !isBreak c && c != '\r').length) = _
    rw [takeWhile_append_of_all (List.all_eq_true.2 hds) rfl, ← h, hall]
  · rename_i ds
    obtain ⟨m, hm, hlen⟩ := Option.map_eq_some_iff.1 h
    change (blockLength? (ds ++ '\n' :: r)).map (· + 2) = _
    rw [blockLength?_past hm, ← hlen]
    rfl
  · cases h

theorem Interlude.Sound.snoc {ks : Interlude} {gap k r : List Char} (h : ks.Sound (gap ++ (k ++ r)))
    (hg : gap.all isGap = true) (hk : commentLength? (k ++ r) = some k.length) : (ks ++ [(gap, k)]).Sound r := by
  induction ks with
  | nil => exact .cons hg hk (.nil r)
  | cons x ks ih =>
    cases h with
    | cons hg' hk' h =>
      refine .cons hg' ?_ (ih h)
      rw [List.append_eq, Interlude.chars_append, List.append_assoc, Interlude.chars_cons, Interlude.chars_nil,
        List.append_nil, List.append_assoc]
      exact hk'

/-- **A comment is read** as it was written. -/
theorem commentOf_past {c : Comment} {d : Cursor} (h : c.isSound = true) (hd : d.rest = c.chars ++ r) :
    commentOf (.node .comment none ⟨d, d.past c.chars⟩ []) = ⟨c, d.row, d.row + c.breaks⟩ := by
  have htext : Concrete.text (.node .comment none ⟨d, d.past c.chars⟩ []) = c.render :=
    (Span.text_past hd).trans (Comment.render_eq h).symm
  have hlast : Concrete.lastRow (.node .comment none ⟨d, d.past c.chars⟩ []) = d.row + c.breaks := Cursor.row_past hd
  rw [commentOf, htext, hlast]
  obtain ⟨text, block⟩ := c
  cases block with
  | false =>
    rw [Comment.render, if_neg Bool.false_ne_true]
    rfl
  | true =>
    have hlen : ("/*" ++ text ++ "*/" : Text).length - 4 = text.length := by
      rw [List.length_append, List.length_append]
      change 2 + text.length + 2 - 4 = _
      omega
    have hbody : (("/*" ++ text ++ "*/" : Text).drop 2).take text.length = text := by
      change (text ++ ("*/" : Text)).take text.length = text
      rw [List.take_left]
    rw [Comment.render, if_pos rfl]
    change PlacedComment.mk ⟨(("/*" ++ text ++ "*/" : Text).drop 2).take (("/*" ++ text ++ "*/" : Text).length - 4), true⟩
      _ _ = _
    rw [hlen, hbody]
    rfl

/-! ## Pending comments -/

/-- Comments and white space that are not read yet, before the rest of a source. -/
structure Pends (c : Cursor) (ks : Interlude) (gap r : List Char) : Prop where
  rest : c.rest = ks.chars ++ (gap ++ r)
  sound : ∀ s, ks.Sound (gap ++ s)
  white : gap.all isGap = true

/-- The place where the rest of a source starts. -/
def placePast (c : Cursor) (ks : Interlude) (gap : List Char) : Cursor := (c.past ks.chars).past gap

theorem placePast_append (c : Cursor) (ks : Interlude) (gap more : List Char) :
    placePast c ks (gap ++ more) = (placePast c ks gap).past more := Cursor.past_append _ _ _

theorem placePast_comment (c : Cursor) (ks : Interlude) (gap k : List Char) :
    placePast c (ks ++ [(gap, k)]) ['\n'] = (placePast c ks gap).past (k ++ ['\n']) := by
  rw [placePast, placePast, Interlude.chars_append, Interlude.chars_cons, Interlude.chars_nil, List.append_nil,
    Cursor.past_append, Cursor.past_append, Cursor.past_append]

/-- The row that the rest of a source starts on. -/
def rowPast (c : Cursor) (ks : Interlude) (gap : List Char) : Nat := c.row + (ks.chars ++ gap).count '\n'

section

variable {c : Cursor} {ks : Interlude} {gap : List Char} {f : Concrete → Reading Node}

theorem Pends.wider {more : List Char} (h : Pends c ks gap (more ++ r)) (hm : more.all isGap = true) :
    Pends c ks (gap ++ more) r := by
  refine ⟨by rw [h.rest, List.append_assoc], fun s => ?_, by rw [List.all_append, h.white, hm]; rfl⟩
  rw [List.append_assoc]
  exact h.sound _

theorem Pends.comment {k : Comment} (h : Pends c ks gap (k.chars ++ '\n' :: r)) (hk : k.isSound = true) :
    Pends c (ks ++ [(gap, k.chars)]) ['\n'] r := by
  refine ⟨?_, fun s => (h.sound _).snoc h.white (commentLength?_past (Comment.length_chars hk) s), rfl⟩
  rw [h.rest, Interlude.chars_append, Interlude.chars_cons]
  simp

theorem Interlude.trees_isComment : ∀ (c : Cursor) (ks : Interlude), (ks.trees c).all Concrete.isComment = true
  | _, [] => rfl
  | c, (gap, k) :: ks => by
    rw [trees, List.all_cons, trees_isComment _ ks]
    rfl

/-- The next token stands after the comments. -/
theorem Pends.ahead {p : Progress} (h : Pends p.cursor ks gap r) (hr : StartsToken r) :
    Ahead p (ks.trees p.cursor) ((p.cursor.past ks.chars).past gap) :=
  ahead_of h.rest (h.sound r) h.white hr

theorem Pends.rest_past (h : Pends c ks gap r) : ((c.past ks.chars).past gap).rest = r :=
  Cursor.rest_past (Cursor.rest_past h.rest)

theorem Pends.row_past (h : Pends c ks gap r) : ((c.past ks.chars).past gap).row = rowPast c ks gap := by
  rw [Cursor.row_past (Cursor.rest_past h.rest), Cursor.row_past h.rest, rowPast, List.count_append, Nat.add_assoc]

theorem Pends.siblings_comment {k : Comment} (h : Pends c ks gap (k.chars ++ '\n' :: r)) (hk : k.isSound = true) :
    siblings f ((ks ++ [(gap, k.chars)] : Interlude).trees c) =
      siblings f (ks.trees c) ++ [.comment ⟨k, rowPast c ks gap, rowPast c ks gap + k.breaks⟩] := by
  rw [Interlude.trees_append, siblings_append]
  have hsib (t : Concrete) (ht : t.kind = .comment) : Script.siblings f [t] = [.comment (commentOf t)] := by
    rw [Script.siblings, List.flatMap_singleton, siblingOf, Concrete.isComment, ht]
    rfl
  rw [Interlude.trees, Interlude.trees, hsib _ rfl, commentOf_past hk h.rest_past, h.row_past]

end

/-! ## Rows -/

/-- A blank line, or none. -/
def blankChars (blank : Bool) : List Char := if blank then ['\n'] else []

/-- Comments one below the other. -/
def commentChars (ind : List Char) (cs : List Comment) : List Char := cs.flatMap fun c => ind ++ (c.chars ++ ['\n'])

theorem commentChars_cons (ind : List Char) (c : Comment) (cs : List Comment) :
    commentChars ind (c :: cs) = ind ++ (c.chars ++ ['\n']) ++ commentChars ind cs := List.flatMap_cons

def trailingChars : Option Comment → List Char
  | none => []
  | some c => ' ' :: c.chars

variable {ι : Type}

/-- The characters of a row inside an indentation; `stop` ends an item. -/
def Row.chars (ind stop : List Char) (chars : ι → List Char) : Row ι → List Char
  | .comment blank c => blankChars blank ++ commentChars ind [c]
  | .item blank above x trailing =>
    blankChars blank ++ (commentChars ind above ++ (ind ++ (chars x ++ (stop ++ (trailingChars trailing ++ ['\n'])))))

def rowsChars (ind stop : List Char) (chars : ι → List Char) (rows : List (Row ι)) : List Char :=
  rows.flatMap (Row.chars ind stop chars)

/-- Blanks and tabs. -/
structure IsIndent (ind : List Char) : Prop where
  white : ind.all isGap = true
  oneLine : ind.count '\n' = 0

section

variable {c : Cursor} {ks : Interlude} {gap ind : List Char} {f : Concrete → Reading Node}

theorem rowPast_append (c : Cursor) (ks : Interlude) (gap more : List Char) :
    rowPast c ks (gap ++ more) = rowPast c ks gap + more.count '\n' := by
  rw [rowPast, rowPast, ← List.append_assoc, List.count_append, Nat.add_assoc]

theorem rowPast_comment (k : Comment) :
    rowPast c (ks ++ [(gap, k.chars)]) ['\n'] = rowPast c ks gap + k.breaks + 1 := by
  rw [rowPast, rowPast, Interlude.chars_append, Interlude.chars_cons, Comment.breaks]
  simp only [List.count_append, Interlude.chars_nil, List.count_nil, List.count_singleton_self]
  omega

theorem breaks_trailing {t : Comment} (h : (t.isSound && !t.text.any (· == '\n')) = true) : t.breaks = 0 := by
  rw [Bool.and_eq_true, Bool.not_eq_true'] at h
  have hrender : CodePoint.scalar '\n' ∉ t.render := by
    have htext : CodePoint.scalar '\n' ∉ t.text := fun hmem => absurd rfl (List.any_eq_false.1 h.2 _ hmem)
    rw [Comment.render]
    split
    · simp only [List.mem_append, not_or]
      exact ⟨⟨by decide, htext⟩, by decide⟩
    · simp only [List.mem_append, not_or]
      exact ⟨by decide, htext⟩
  rw [Comment.breaks, List.count_eq_zero]
  rw [Comment.render_eq h.1] at hrender
  exact fun hmem => hrender (List.mem_map_of_mem hmem)

/-- The comment after an item is pending. -/
theorem Pends.trailing {t : Option Comment} (hc : c.rest = trailingChars t ++ '\n' :: r)
    (ht : (t.all fun c => c.isSound && !c.text.any (· == '\n')) = true) :
    ∃ ks gap, Pends c ks gap r ∧ placePast c ks gap = c.past (trailingChars t ++ ['\n']) ∧ rowPast c ks gap = c.row + 1 ∧
      siblings f (ks.trees c) = t.toList.map fun k => .comment ⟨k, c.row, c.row + k.breaks⟩ := by
  cases t with
  | none => exact ⟨[], ['\n'], ⟨hc, fun s => .nil _, rfl⟩, rfl, rfl, rfl⟩
  | some t =>
    have hbreaks := breaks_trailing ht
    rw [Option.all_some, Bool.and_eq_true] at ht
    have hpends : Pends c [] [' '] (t.chars ++ '\n' :: r) := ⟨hc, fun s => .nil _, rfl⟩
    have hrow : rowPast c [] [' '] = c.row := rfl
    refine ⟨_, _, hpends.comment ht.1, ?_, ?_, ?_⟩
    · rw [placePast_comment]
      exact (Cursor.past_append c [' '] _).symm
    · rw [rowPast_comment, hrow, hbreaks]
    · rw [hpends.siblings_comment ht.1, hrow]
      rfl

/-- Comments one below the other are pending. -/
theorem Pends.comments (hind : IsIndent ind) : ∀ (cs : List Comment) {ks : Interlude} {gap : List Char},
    Pends c ks gap (commentChars ind cs ++ r) → cs.all Comment.isSound = true →
    ∃ ks' gap', Pends c ks' gap' r ∧ placePast c ks' gap' = (placePast c ks gap).past (commentChars ind cs) ∧
      rowPast c ks' gap' = rowAfter (rowPast c ks gap) cs ∧
      siblings f (ks'.trees c) = siblings f (ks.trees c) ++ (placeComments (rowPast c ks gap) cs).map .comment
  | [], ks, gap, h, _ => ⟨ks, gap, h, rfl, rfl, (List.append_nil _).symm⟩
  | k :: cs, ks, gap, h, hs => by
    rw [List.all_cons, Bool.and_eq_true] at hs
    have htext : commentChars ind (k :: cs) ++ r = ind ++ (k.chars ++ '\n' :: (commentChars ind cs ++ r)) := by
      simp [commentChars]
    rw [htext] at h
    have hwide := h.wider hind.white
    obtain ⟨ks', gap', hpends, hplace, hrow, hsib⟩ := Pends.comments hind cs (hwide.comment hs.1) hs.2
    have hstart : rowPast c ks (gap ++ ind) = rowPast c ks gap := by
      rw [rowPast_append, hind.oneLine, Nat.add_zero]
    rw [rowPast_comment, hstart] at hrow hsib
    refine ⟨ks', gap', hpends, ?_, hrow, ?_⟩
    · rw [hplace, placePast_comment, placePast_append, commentChars_cons, ← Cursor.past_append, ← Cursor.past_append,
        List.append_assoc ind]
    rw [hsib, hwide.siblings_comment hs.1, hstart, List.append_assoc]
    rfl

end

section

variable {α : Type} {more : Recogniser Bool} {part : Recogniser α} {trees : α → List Concrete}
  {f : Concrete → Reading Node} {ind stop tail : List Char} {chars : ι → List Char} {Good : α → Prop}
  {Q : ι → Reading Node → Prop}

/-- The recogniser reads an item of a row from its place on, before some characters. -/
def ReadsRow (more : Recogniser Bool) (part : Recogniser α) (trees : α → List Concrete) (f : Concrete → Reading Node)
    (stop : List Char) (chars : ι → List Char) (Good : α → Prop) (Q : ι → Reading Node → Prop) (x : ι) (r : List Char) :
    Prop :=
  chars x ≠ [] ∧ StartsToken (chars x ++ (stop ++ r)) ∧
    ∀ {p : Progress} {before : List Concrete} {c : Cursor}, Ahead p before c → before.all Concrete.isComment = true →
      c.rest = chars x ++ (stop ++ r) → ∃ a b v, Reads more p true p ∧ Reads part p a ⟨c.past (chars x ++ stop), b⟩ ∧ Good a ∧ Q x v ∧
        siblings f (trees a) = siblings f before ++ [.item c.row (c.row + (chars x).count '\n') v]

/-- All items of rows are read, each before what follows it. -/
def RowsReadable (more : Recogniser Bool) (part : Recogniser α) (trees : α → List Concrete) (f : Concrete → Reading Node)
    (ind stop tail : List Char) (chars : ι → List Char) (Good : α → Prop) (Q : ι → Reading Node → Prop) :
    List (Row ι) → Prop
  | [] => True
  | .comment .. :: rows => RowsReadable more part trees f ind stop tail chars Good Q rows
  | .item _ _ x trailing :: rows =>
    ReadsRow more part trees f stop chars Good Q x (trailingChars trailing ++ '\n' :: (rowsChars ind stop chars rows ++ tail)) ∧
      RowsReadable more part trees f ind stop tail chars Good Q rows

theorem rowsReadable_of : ∀ {rows : List (Row ι)},
    (∀ blank above x trailing, .item blank above x trailing ∈ rows → ∀ r, ReadsRow more part trees f stop chars Good Q x r) →
    RowsReadable more part trees f ind stop tail chars Good Q rows
  | [], _ => trivial
  | row :: rows, h => by
    have hrest := rowsReadable_of fun blank above x trailing hmem => h blank above x trailing (List.mem_cons_of_mem row hmem)
    cases row with
    | comment => exact hrest
    | item => exact ⟨h _ _ _ _ List.mem_cons_self _, hrest⟩

theorem length_le_rowsChars (ind stop : List Char) (chars : ι → List Char) {rows : List (Row ι)} {blank : Bool} {above : List Comment}
    {x : ι} {trailing : Option Comment} (h : .item blank above x trailing ∈ rows) :
    (chars x).length ≤ (rowsChars ind stop chars rows).length := by
  induction rows with
  | nil => cases h
  | cons row rows ih =>
    rw [rowsChars, List.flatMap_cons, ← rowsChars, List.length_append]
    rcases List.mem_cons.1 h with rfl | h
    · simp only [Row.chars, List.length_append]
      omega
    · exact Nat.le_trans (ih h) (Nat.le_add_left _ _)

theorem blankChars_white (blank : Bool) : (blankChars blank).all isGap = true := by cases blank <;> rfl

theorem blankChars_count (blank : Bool) : (blankChars blank).count '\n' = blank.toNat := by cases blank <;> rfl

/-- **Rows are read** up to what ends them. -/
theorem rows_run {lead close : List Char} (hind : IsIndent ind) (hstop : stop.count '\n' = 0) (hlead : lead.all isGap = true) (hclose : StartsToken close)
    (hmore : ∀ {p : Progress} {before : List Concrete} {c : Cursor}, Ahead p before c → c.rest = close →
      Reads more p false p) : ∀ {rows : List (Row ι)} {p : Progress} {ks : Interlude} {gap : List Char},
    Pends p.cursor ks gap (rowsChars ind stop chars rows ++ (lead ++ close)) → rows.all Row.isSound = true →
    RowsReadable more part trees f ind stop (lead ++ close) chars Good Q rows →
    ∃ as q ks' gap' ss, Run more part p as q ∧ (∀ a ∈ as, Good a) ∧ Pends q.cursor ks' gap' (lead ++ close) ∧
      placePast q.cursor ks' gap' = (placePast p.cursor ks gap).past (rowsChars ind stop chars rows) ∧
      Placed (fun x => (chars x).count '\n') Q (rowPast p.cursor ks gap) rows ss ∧
      siblings f (as.flatMap trees ++ ks'.trees q.cursor) = siblings f (ks.trees p.cursor) ++ ss
  | [], p, ks, gap, h, _, _ => by
    rw [rowsChars, List.flatMap_nil, List.nil_append] at h
    have hwide := h.wider hlead
    refine ⟨[], p, ks, gap, [], .nil (hmore (hwide.ahead hclose) hwide.rest_past), nofun, h, rfl, .nil _, ?_⟩
    rw [List.append_nil]
    rfl
  | .comment blank k :: rows, p, ks, gap, h, hs, hr => by
    rw [List.all_cons, Bool.and_eq_true] at hs
    rw [rowsChars, List.flatMap_cons, Row.chars, List.append_assoc, List.append_assoc] at h
    have hwide := h.wider (blankChars_white blank)
    obtain ⟨ks₁, gap₁, hpends, hplace, hrow, hsib⟩ := Pends.comments (f := f) hind [k] hwide (by rw [List.all_cons, show k.isSound = true from hs.1]; rfl)
    obtain ⟨as, q, ks', gap', ss, hrun, hgood, hq, hend, hplaced, hss⟩ := rows_run hind hstop hlead hclose hmore hpends hs.2 hr
    rw [rowPast_append, blankChars_count] at hrow hsib
    rw [hrow] at hplaced
    refine ⟨as, q, ks', gap', _, hrun, hgood, hq, ?_, .comment hplaced, ?_⟩
    · rw [hend, hplace, placePast_append, rowsChars, rowsChars, List.flatMap_cons, Row.chars, ← Cursor.past_append,
        ← Cursor.past_append, List.append_assoc]
    · rw [hss, hsib, List.append_assoc]
      rfl
  | .item blank above x trailing :: rows, p, ks, gap, h, hs, hr => by
    rw [List.all_cons, Bool.and_eq_true, Row.isSound, Bool.and_eq_true] at hs
    obtain ⟨⟨habove, htrailing⟩, hs⟩ := hs
    obtain ⟨⟨hne, hstart, hread⟩, hr⟩ := hr
    have htext : rowsChars ind stop chars (.item blank above x trailing :: rows) ++ (lead ++ close) =
        blankChars blank ++ (commentChars ind above ++ (ind ++ (chars x ++ (stop ++
          (trailingChars trailing ++ '\n' :: (rowsChars ind stop chars rows ++ (lead ++ close))))))) := by
      simp [rowsChars, Row.chars]
    rw [htext] at h
    obtain ⟨ks₁, gap₁, hpends, hplace, hrow, hsib⟩ :=
      Pends.comments (f := f) hind above (h.wider (blankChars_white blank)) habove
    rw [rowPast_append, blankChars_count] at hrow hsib
    have hwide := hpends.wider hind.white
    have hc := hwide.rest_past
    have hcrow := hwide.row_past
    rw [rowPast_append, hind.oneLine, Nat.add_zero, hrow] at hcrow
    obtain ⟨a, b, v, hmoreTrue, hpart, ha, hv, htrees⟩ := hread (hwide.ahead hstart) (Interlude.trees_isComment _ _) hc
    have hlen := (hwide.ahead (p := p) hstart).length_le
    have hplace' : (p.cursor.past ks₁.chars).past (gap₁ ++ ind) =
        (placePast p.cursor ks gap).past (blankChars blank ++ (commentChars ind above ++ ind)) := by
      rw [← placePast, placePast_append, hplace, placePast_append, ← Cursor.past_append, ← Cursor.past_append]
    generalize (p.cursor.past ks₁.chars).past (gap₁ ++ ind) = c at hc hcrow hpart htrees hlen hplace'
    have hq : (c.past (chars x ++ stop)).rest =
        trailingChars trailing ++ '\n' :: (rowsChars ind stop chars rows ++ (lead ++ close)) := by
      rw [← List.append_assoc] at hc
      exact Cursor.rest_past hc
    have hqrow : (c.past (chars x ++ stop)).row = c.row + (chars x).count '\n' := by
      rw [← List.append_assoc] at hc
      rw [Cursor.row_past hc, List.count_append, hstop, Nat.add_zero]
    obtain ⟨ks₂, gap₂, hpends₂, hplace₂, hrow₂, hsib₂⟩ := Pends.trailing (f := f) hq htrailing
    obtain ⟨as, q, ks', gap', ss, hrun, hgood, hqpends, hend, hplaced, hss⟩ :=
      rows_run hind hstop hlead hclose hmore (p := ⟨c.past (chars x ++ stop), b⟩) hpends₂ hs hr
    change Placed _ Q (rowPast (c.past (chars x ++ stop)) ks₂ gap₂) rows ss at hplaced
    rw [hrow₂, hqrow, hcrow] at hplaced
    refine ⟨a :: as, q, ks', gap', _, .cons hmoreTrue hpart ?_ hrun,
      List.forall_mem_cons.2 ⟨ha, hgood⟩, hqpends, ?_, .item rfl hv hplaced, ?_⟩
    · refine Nat.lt_of_lt_of_le ?_ hlen
      change (c.past (chars x ++ stop)).rest.length < _
      have := List.length_pos_iff.2 hne
      rw [hq, hc]
      simp only [List.length_append]
      omega
    · change _ = (placePast (c.past (chars x ++ stop)) ks₂ gap₂).past _ at hend
      rw [hend, hplace₂, hplace', rowsChars, rowsChars, List.flatMap_cons, Row.chars, ← Cursor.past_append,
        ← Cursor.past_append, ← Cursor.past_append]
      simp only [List.append_assoc]
    · rw [List.flatMap_cons, List.append_assoc, siblings_append, hss, hsib₂, htrees, hsib, hqrow, hcrow]
      simp only [List.append_assoc, List.cons_append, List.nil_append]

/-- The next token of rows is that of an item, or of what ends them. -/
theorem rows_ahead {lead close : List Char} (hind : IsIndent ind) (hlead : lead.all isGap = true) (hclose : StartsToken close) :
    ∀ {rows : List (Row ι)} {p : Progress} {ks : Interlude} {gap : List Char},
    Pends p.cursor ks gap (rowsChars ind stop chars rows ++ (lead ++ close)) → rows.all Row.isSound = true →
    (∀ blank above x trailing, .item blank above x trailing ∈ rows → ∀ r, StartsToken (chars x ++ r)) →
    ∃ before c, Ahead p before c ∧ (c.rest = close ∨ ∃ blank above x trailing r, .item blank above x trailing ∈ rows ∧ c.rest = chars x ++ r)
  | [], p, ks, gap, h, _, _ => by
    rw [rowsChars, List.flatMap_nil, List.nil_append] at h
    have hwide := h.wider hlead
    exact ⟨_, _, hwide.ahead hclose, .inl hwide.rest_past⟩
  | .comment blank k :: rows, p, ks, gap, h, hs, hx => by
    rw [List.all_cons, Bool.and_eq_true] at hs
    rw [rowsChars, List.flatMap_cons, Row.chars, List.append_assoc, List.append_assoc] at h
    obtain ⟨ks₁, gap₁, hpends, -⟩ := Pends.comments (f := readExpression) hind [k] (h.wider (blankChars_white blank))
      (by rw [List.all_cons, show k.isSound = true from hs.1]; rfl)
    obtain ⟨before, c, ha, hc⟩ := rows_ahead hind hlead hclose hpends hs.2
      fun blank above x trailing hmem => hx blank above x trailing (List.mem_cons_of_mem _ hmem)
    refine ⟨before, c, ha, hc.imp_right ?_⟩
    rintro ⟨blank, above, x, trailing, r, hmem, hr⟩
    exact ⟨blank, above, x, trailing, r, List.mem_cons_of_mem _ hmem, hr⟩
  | .item blank above x trailing :: rows, p, ks, gap, h, hs, hx => by
    rw [List.all_cons, Bool.and_eq_true, Row.isSound, Bool.and_eq_true] at hs
    rw [rowsChars, List.flatMap_cons, Row.chars] at h
    simp only [List.append_assoc] at h
    obtain ⟨ks₁, gap₁, hpends, -⟩ := Pends.comments (f := readExpression) hind above (h.wider (blankChars_white blank)) hs.1.1
    have hwide := hpends.wider hind.white
    exact ⟨_, _, hwide.ahead (hx _ _ _ _ List.mem_cons_self _), .inr ⟨blank, above, x, trailing, _, List.mem_cons_self, hwide.rest_past⟩⟩

end

end ApiRoutes.Script
