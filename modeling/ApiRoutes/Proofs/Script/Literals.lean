import ApiRoutes.Proofs.Script.RowRuns
import ApiRoutes.Proofs.Script.Texts
/-!
# Texts of literals

The entries of objects and the elements of arrays are written in the same two ways: on one line, or in rows
(`rows_of_blocks`).
-/
namespace ApiRoutes.Script

variable {L : Nat} {text : Node → Outcome Text}

/-! ## Entries -/

/-- The text of an entry of an object. -/
def entryText (L : Nat) : Node → Outcome Text
  | ⟨_, .property key _ true⟩ => return key
  | ⟨_, .property key value false⟩ => return propertyKey key ++ ": " ++ (← expressionText L value)
  | n => expressionText L n

/-- The text of a node of a row; a comment has none. -/
def rowText (text : Node → Outcome Text) (n : Node) : Outcome Text := if n.isComment then .ok [] else text n

theorem rowText_of_ne {n : Node} (hn : n.isComment = false) : rowText text n = text n := by
  rw [rowText, hn, if_neg Bool.false_ne_true]

/-- The lines of the entries of a literal inside `L`, from the text of each that is no comment. -/
def literalBlocks (L : Nat) (text : Node → Outcome Text) : List Node → Outcome (List (List Text))
  | [] => return []
  | n :: rest => do
    let t ← rowText text n
    return entryLines (indentation (L + 1)) n t :: (← literalBlocks L text rest)

theorem entryTexts_eq : ∀ ns : List Node, entryTexts L ns = ns.mapM (entryText L)
  | [] => rfl
  | ⟨l, s⟩ :: ns => by
    rw [List.mapM_cons, ← entryTexts_eq ns]
    cases s with
    | property k v shorthand =>
      cases shorthand with
      | true => rw [entryTexts]; rfl
      | false =>
        rw [entryTexts, entryText]
        cases expressionText L v <;> rfl
    | _ => rw [entryTexts, entryText] <;> simp

theorem expressionTexts_eq : ∀ ns : List Node, expressionTexts L ns = ns.mapM (expressionText L)
  | [] => rfl
  | n :: ns => by
    rw [List.mapM_cons, expressionTexts, expressionTexts_eq ns]

theorem entryBlocks_eq : ∀ ns : List Node, entryBlocks L ns = literalBlocks L (entryText (L + 1)) ns
  | [] => rfl
  | ⟨l, s⟩ :: ns => by
    rw [literalBlocks, ← entryBlocks_eq ns]
    cases s with
    | property k v shorthand =>
      cases shorthand with
      | true => rw [entryBlocks]; rfl
      | false =>
        rw [entryBlocks, rowText_of_ne rfl, entryText]
        cases expressionText (L + 1) v <;> rfl
    | comment => rw [entryBlocks]; rfl
    | _ => rw [entryBlocks, rowText_of_ne rfl, entryText] <;> simp

theorem elementBlocks_eq : ∀ ns : List Node, elementBlocks L ns = literalBlocks L (expressionText (L + 1)) ns
  | [] => rfl
  | ⟨l, s⟩ :: ns => by
    rw [literalBlocks, ← elementBlocks_eq ns]
    cases s with
    | comment => rw [elementBlocks]; rfl
    | _ => rw [elementBlocks, rowText_of_ne rfl]; simp

/-! ## Rows -/

/-- The characters of an indentation. -/
def indentChars (level : Nat) : List Char := List.replicate (4 * level) ' '

theorem indentation_eq (level : Nat) : indentation level = Text.ofChars (indentChars level) := by
  rw [indentation, Text.blanks, indentChars, Text.ofChars, List.map_replicate]

theorem isIndent_indentChars (level : Nat) : IsIndent (indentChars level) := by
  refine ⟨List.all_eq_true.2 fun c hc => ?_, List.count_eq_zero_of_not_mem fun hc => ?_⟩
  · rw [List.eq_of_mem_replicate hc]
    decide
  · exact absurd (List.eq_of_mem_replicate hc) (by decide)

/-- Do the comments of a row end where their texts do? -/
def Node.isPlainRow (n : Node) : Bool :=
  match n.shape with
  | .comment c => c.isSound && n.isBare
  | _ => n.layout.isPlain

/-- The row of a node, which has a text unless it is a comment. -/
inductive RowOf (text : Node → Outcome Text) : Node → Row (Node × List Char) → Prop
  | comment {blank : Bool} {l : Layout} {c : Comment} : RowOf text ⟨l, .comment c⟩ (.comment blank c)
  | item {blank : Bool} {n : Node} {x : List Char} (hn : n.isComment = false) (hx : text n = .ok (Text.ofChars x)) :
    RowOf text n (.item blank n.layout.comments (n, x) n.layout.trailing)

section

variable {ind : List Char} {n : Node} {t : Text} {cs : List Char}

theorem linesText_comments : ∀ {cs : List Comment}, cs.all Comment.isSound = true →
    linesText (cs.map fun c => Text.ofChars ind ++ c.render) = Text.ofChars (commentChars ind cs)
  | [], _ => rfl
  | c :: cs, h => by
    rw [List.all_cons, Bool.and_eq_true] at h
    rw [List.map_cons, linesText, List.flatMap_cons, ← linesText, linesText_comments h.2, Comment.render_eq h.1,
      commentChars_cons, Text.ofChars_append, Text.ofChars_append, Text.ofChars_append, ← List.append_assoc]
    rfl

/-- A line with the comment after it. -/
def withTrailing (line : Text) : Option Comment → Text
  | some c => line ++ " " ++ c.render
  | none => line

theorem withTrailing_eq (line : Text) {trailing : Option Comment}
    (h : (trailing.all fun c => c.isSound && !c.text.any (· == '\n')) = true) :
    withTrailing line trailing = line ++ Text.ofChars (trailingChars trailing) := by
  cases trailing with
  | none => exact (List.append_nil _).symm
  | some c =>
    rw [Option.all_some, Bool.and_eq_true] at h
    rw [withTrailing, Comment.render_eq h.1, List.append_assoc]
    rfl

theorem linesText_comment {l : Layout} {c : Comment} (h : c.isSound = true) (hl : l.isBare = true) :
    linesText (entryLines (Text.ofChars ind) ⟨l, .comment c⟩ t) = Text.ofChars (commentChars ind [c]) := by
  rw [Layout.isBare, Bool.and_eq_true, List.isEmpty_iff, Option.isNone_iff_eq_none] at hl
  have hlines : entryLines (Text.ofChars ind) ⟨l, .comment c⟩ t = [c].map fun c => Text.ofChars ind ++ c.render := by
    rw [entryLines]
    simp only [Node.layout, hl.1, hl.2]
    rfl
  rw [hlines, linesText_comments (by rw [List.all_cons, h]; rfl)]

theorem linesText_entry (hn : n.isComment = false) (hl : n.layout.isPlain = true) :
    linesText (entryLines (Text.ofChars ind) n t) = Text.ofChars (commentChars ind n.layout.comments ++ ind) ++
      (t ++ Text.ofChars (',' :: (trailingChars n.layout.trailing ++ ['\n']))) := by
  rw [Layout.isPlain, Bool.and_eq_true] at hl
  obtain ⟨⟨comments, trailing, blank⟩, s⟩ := n
  have hlines : entryLines (Text.ofChars ind) ⟨⟨comments, trailing, blank⟩, s⟩ t =
      (comments.map fun c => Text.ofChars ind ++ c.render) ++
        [Text.ofChars ind ++ t ++ "," ++ Text.ofChars (trailingChars trailing)] := by
    have htrailing := @withTrailing_eq (Text.ofChars ind ++ t ++ ",") trailing hl.2
    rw [← htrailing]
    cases s with
    | comment => cases hn
    | _ => cases trailing <;> rfl
  have hcomments : linesText (comments.map fun c => Text.ofChars ind ++ c.render) = Text.ofChars (commentChars ind comments) :=
    linesText_comments hl.1
  rw [hlines, linesText_append, hcomments, linesText, List.flatMap_singleton, Text.ofChars_append]
  change _ = Text.ofChars (commentChars ind comments) ++ Text.ofChars ind ++
    (t ++ ("," ++ Text.ofChars (trailingChars trailing ++ ['\n'])))
  rw [Text.ofChars_append]
  simp only [List.append_assoc]
  rfl

end

theorem Node.isPlainRow_of_ne {n : Node} (hn : n.isComment = false) : n.isPlainRow = n.layout.isPlain := by
  obtain ⟨l, s⟩ := n
  cases s with
  | comment => cases hn
  | _ => rfl

theorem RowOf.isSound {n : Node} {row : Row (Node × List Char)} (h : RowOf text n row)
    (hn : n.isPlainRow = true) : row.isSound = true := by
  cases h with
  | @comment _ l c => exact (Bool.and_eq_true_iff.1 (hn : (c.isSound && l.isBare) = true)).1
  | item hc => rwa [Node.isPlainRow_of_ne hc] at hn

theorem entryLines_comment {ind : List Char} {l : Layout} {c : Comment} (h : c.isSound = true) (hl : l.isBare = true) (t : Text) :
    linesText (entryLines (Text.ofChars ind) ⟨l, .comment c⟩ t) =
      Text.ofChars (Row.chars ind [','] Prod.snd (.comment false c : Row (Node × List Char))) :=
  linesText_comment h hl

theorem entryLines_item {ind x : List Char} {n : Node} (m : Node) (hn : n.isComment = false) (hl : n.layout.isPlain = true) :
    linesText (entryLines (Text.ofChars ind) n (Text.ofChars x)) =
      Text.ofChars (Row.chars ind [','] Prod.snd (.item false n.layout.comments (m, x) n.layout.trailing)) := by
  rw [linesText_entry hn hl, ← Text.ofChars_append, ← Text.ofChars_append, List.append_assoc]
  rfl

/-- **The lines of a literal are rows.** -/
theorem rows_of_blocks : ∀ {ns : List Node} {bs : List (List Text)} {cs : List Char},
    literalBlocks L text ns = .ok bs → linesText bs.flatten = Text.ofChars cs → (ns.all Node.isPlainRow = true) →
    ∃ rows, List.Forall₂ (RowOf text) ns rows ∧ rows.all (fun row => !row.blank) = true ∧
      cs = rowsChars (indentChars (L + 1)) [','] Prod.snd rows
  | [], bs, cs, h, hcs, _ => by
    cases h
    exact ⟨[], .nil, rfl, (Text.ofChars_inj hcs.symm : cs = [])⟩
  | n :: ns, bs, cs, h, hcs, hn => by
    rw [List.all_cons, Bool.and_eq_true] at hn
    rw [literalBlocks] at h
    obtain ⟨t, ht, h⟩ := bind_eq_ok.1 h
    obtain ⟨bs', hbs, h⟩ := bind_eq_ok.1 h
    obtain rfl := Except.ok.inj h
    rw [List.flatten_cons, linesText_append, indentation_eq] at hcs
    obtain ⟨xs, ys, rfl, hx, hy⟩ := Text.ofChars_of_append hcs
    obtain ⟨rows, hrows, hblank, rfl⟩ := rows_of_blocks hbs hy hn.2
    cases hc : n.isComment with
    | true =>
      obtain ⟨l, s⟩ := n
      cases s with
      | comment c =>
        obtain ⟨hsound, hbare⟩ := Bool.and_eq_true_iff.1 (hn.1 : (c.isSound && l.isBare) = true)
        refine ⟨.comment false c :: rows, .cons .comment hrows, by rw [List.all_cons, hblank]; rfl, ?_⟩
        have hx' := (entryLines_comment hsound hbare t).symm.trans hx
        rw [← Text.ofChars_inj hx', rowsChars, rowsChars, List.flatMap_cons]
      | _ => cases hc
    | false =>
      rw [rowText_of_ne hc] at ht
      have hplain := hn.1
      rw [Node.isPlainRow_of_ne hc] at hplain
      have hx' := hx
      rw [linesText_entry hc hplain] at hx'
      obtain ⟨u, -, hu⟩ := Text.ofChars_of_chars_append _ hx'
      obtain ⟨x, -, rfl⟩ := Text.ofChars_of_append_chars _ hu
      refine ⟨.item false n.layout.comments (n, x) n.layout.trailing :: rows, .cons (.item hc ht) hrows,
        by rw [List.all_cons, hblank]; rfl, ?_⟩
      rw [entryLines_item n hc hplain] at hx
      rw [← Text.ofChars_inj hx, rowsChars, rowsChars, List.flatMap_cons]

/-- **Nodes that are read for rows** are written as them again. -/
theorem blocks_of_rows {P : Node × List Char → Shape → Prop}
    (hP : ∀ x s, P x s → ∀ l, Node.isComment ⟨l, s⟩ = false ∧ text ⟨l, s⟩ = .ok (Text.ofChars x.2)) {first : Bool}
    {rows : List (Row (Node × List Char))} {ms : List Node} (h : Aligned (NodeOf P) first rows ms)
    (hsound : rows.all Row.isSound = true) (hblank : rows.all (fun row => !row.blank) = true) :
    ∃ bs, literalBlocks L text ms = .ok bs ∧
      linesText bs.flatten = Text.ofChars (rowsChars (indentChars (L + 1)) [','] Prod.snd rows) := by
  induction h with
  | nil => exact ⟨[], rfl, rfl⟩
  | @cons first row m rows ms h _ ih =>
    rw [List.all_cons, Bool.and_eq_true] at hsound hblank
    obtain ⟨bs, hbs, htext⟩ := ih hsound.2 hblank.2
    obtain ⟨t, ht, hline⟩ : ∃ t, rowText text m = .ok t ∧ linesText (entryLines (indentation (L + 1)) m t) =
        Text.ofChars (Row.chars (indentChars (L + 1)) [','] Prod.snd row) := by
      rw [indentation_eq]
      cases h with
      | comment blank c =>
        obtain rfl : blank = false := by simpa [Row.blank] using hblank.1
        exact ⟨[], rfl, entryLines_comment hsound.1 rfl []⟩
      | @item blank above x trailing s hs =>
        obtain rfl : blank = false := by simpa [Row.blank] using hblank.1
        obtain ⟨hc, ht⟩ := hP x s hs { comments := above, trailing, blankBefore := recordedBlank first false }
        refine ⟨_, ?_, entryLines_item x.1 hc hsound.1⟩
        rw [rowText_of_ne hc, ht]
    refine ⟨entryLines (indentation (L + 1)) m t :: bs, ?_, ?_⟩
    · rw [literalBlocks, ht, hbs]
      rfl
    · rw [List.flatten_cons, linesText_append, htext, hline, ← Text.ofChars_append, rowsChars, rowsChars, List.flatMap_cons]

end ApiRoutes.Script
