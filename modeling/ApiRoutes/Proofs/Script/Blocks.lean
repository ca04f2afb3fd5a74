import ApiRoutes.Proofs.Script.Ends
import ApiRoutes.Proofs.Script.Literals
/-!
# Blocks of statements

Statements stand in rows (`rows_of_lines`), and rows of statements are read back as the statements
(`Grammar.ReadsStatements.rows`).
-/
namespace ApiRoutes.Script

open Recogniser

/-! ## Lines -/

section

variable {L : Nat} {l : Layout} {t : Text}

theorem linesText_blank (blank : Bool) : linesText (if blank = true then [[]] else []) = Text.ofChars (blankChars blank) := by
  cases blank <;> rfl

theorem linesText_statement (hl : l.isPlain = true) : linesText (statementLines L l t) =
    Text.ofChars (commentChars (indentChars L) l.comments ++ indentChars L) ++
      (t ++ Text.ofChars (trailingChars l.trailing ++ ['\n'])) := by
  rw [Layout.isPlain, Bool.and_eq_true] at hl
  have hlines : statementLines L l t = (l.comments.map fun c => Text.ofChars (indentChars L) ++ c.render) ++
      [Text.ofChars (indentChars L) ++ (t ++ Text.ofChars (trailingChars l.trailing))] := by
    rw [← withTrailing_eq t hl.2, ← indentation_eq, statementLines]
    cases l.trailing <;> rfl
  rw [hlines, linesText_append, linesText_comments hl.1, linesText, List.flatMap_singleton, Text.ofChars_append,
    Text.ofChars_append]
  simp only [List.append_assoc]
  rfl

theorem statementLines_comment {c : Comment} (h : c.isSound = true) (hl : l.isBare = true) :
    linesText (statementLines L l c.render) = Text.ofChars (commentChars (indentChars L) [c]) := by
  rw [Layout.isBare, Bool.and_eq_true, List.isEmpty_iff, Option.isNone_iff_eq_none] at hl
  have hlines : statementLines L l c.render = [c].map fun c => Text.ofChars (indentChars L) ++ c.render := by
    rw [← indentation_eq, statementLines]
    simp only [hl.1, hl.2]
    rfl
  rw [hlines, linesText_comments (by rw [List.all_cons, h]; rfl)]

theorem statementLines_item {x : List Char} {n : Node} (m : Node) (hl : n.layout.isPlain = true) (blank : Bool) :
    linesText (if blank = true then [[]] else []) ++ linesText (statementLines L n.layout (Text.ofChars x)) =
      Text.ofChars (Row.chars (indentChars L) [] Prod.snd (.item blank n.layout.comments (m, x) n.layout.trailing)) := by
  rw [linesText_blank, linesText_statement hl, ← Text.ofChars_append, ← Text.ofChars_append, ← Text.ofChars_append,
    List.append_assoc]
  rfl

/-- **The lines of a block are rows.** -/
theorem rows_of_lines : ∀ {ns : List Node} {previous : Option Node} {ls : List Text} {cs : List Char},
    blockLines L previous ns = .ok ls → linesText ls = Text.ofChars cs → ns.all Node.isPlainRow = true →
    ∃ rows, List.Forall₂ (RowOf (statementText L)) ns rows ∧ rows.map Row.blank = blanksAfter previous ns ∧
      cs = rowsChars (indentChars L) [] Prod.snd rows
  | [], previous, ls, cs, h, hcs, _ => by
    rw [blockLines] at h
    cases h
    exact ⟨[], .nil, rfl, (Text.ofChars_inj hcs.symm : cs = [])⟩
  | n :: ns, previous, ls, cs, h, hcs, hn => by
    rw [List.all_cons, Bool.and_eq_true] at hn
    rw [blockLines] at h
    obtain ⟨t, ht, h⟩ := bind_eq_ok.1 h
    obtain ⟨ls', hls, h⟩ := bind_eq_ok.1 h
    obtain rfl := Except.ok.inj h
    rw [linesText_append, linesText_append] at hcs
    obtain ⟨xs, ys, rfl, hx, hy⟩ := Text.ofChars_of_append hcs
    obtain ⟨rows, hrows, hblanks, rfl⟩ := rows_of_lines hls hy hn.2
    cases hc : n.isComment with
    | true =>
      obtain ⟨l, s⟩ := n
      cases s with
      | comment c =>
        obtain ⟨hsound, hbare⟩ := Bool.and_eq_true_iff.1 (hn.1 : (c.isSound && l.isBare) = true)
        rw [statementText] at ht
        obtain rfl := Except.ok.inj ht
        have hline : linesText (statementLines L l c.render) = _ := statementLines_comment hsound hbare
        refine ⟨.comment (previous.any (blankBetween · ⟨l, .comment c⟩)) c :: rows, .cons .comment hrows, ?_, ?_⟩
        · rw [List.map_cons, hblanks]
          rfl
        · have hx' := (congrArg₂ (· ++ ·) (linesText_blank _) hline).symm.trans hx
          change Text.ofChars _ ++ Text.ofChars _ = _ at hx'
          rw [← Text.ofChars_append] at hx'
          rw [← Text.ofChars_inj hx', rowsChars, rowsChars, List.flatMap_cons]
          rfl
      | _ => cases hc
    | false =>
      have hplain := hn.1
      rw [Node.isPlainRow_of_ne hc] at hplain
      have hx' := hx
      rw [linesText_blank, linesText_statement hplain, ← List.append_assoc, ← Text.ofChars_append] at hx'
      obtain ⟨u, -, hu⟩ := Text.ofChars_of_chars_append _ hx'
      obtain ⟨x, -, rfl⟩ := Text.ofChars_of_append_chars _ hu
      refine ⟨.item (previous.any (blankBetween · n)) n.layout.comments (n, x) n.layout.trailing :: rows,
        .cons (.item hc ht) hrows, ?_, ?_⟩
      · rw [List.map_cons, hblanks]
        rfl
      · rw [statementLines_item n hplain] at hx
        rw [← Text.ofChars_inj hx, rowsChars, rowsChars, List.flatMap_cons]

theorem blankBetween_recorded {blank : Bool} {n : Node} (h : n.layout.blankBefore = recordedBlank false blank) (previous : Node) :
    blankBetween previous n = blank := by
  rw [blankBetween, h]
  rfl

/-- The blank line above a row is read with it. -/
theorem blank_of_row {ι : Type} {P : ι → Shape → Prop} {first : Bool} {row : Row ι} {m : Node} (h : NodeOf P first row m)
    {previous : Option Node} (hprevious : previous.isNone = first) (hfirst : first = true → row.blank = false) :
    previous.any (blankBetween · m) = row.blank := by
  have hm : m.layout.blankBefore = recordedBlank first row.blank := by cases h <;> rfl
  cases previous with
  | none =>
    obtain rfl := hprevious
    exact (hfirst rfl).symm
  | some previous =>
    obtain rfl := hprevious
    exact blankBetween_recorded hm previous

/-- **Statements that are read for rows** stand below blank lines as the rows do. -/
theorem blanksAfter_of_rows {ι : Type} {P : ι → Shape → Prop} {first : Bool} {rows : List (Row ι)} {ms : List Node}
    (h : Aligned (NodeOf P) first rows ms) : ∀ {previous : Option Node}, previous.isNone = first →
    (first = true → rows.head?.all (fun row => !row.blank) = true) → blanksAfter previous ms = rows.map Row.blank := by
  induction h with
  | nil => exact fun _ _ => rfl
  | @cons first row m rows ms h _ ih =>
    intro previous hprevious hfirst
    rw [blanksAfter, List.map_cons, blank_of_row h hprevious fun hf => by simpa using hfirst hf,
      @ih (some m) rfl nofun]

/-- **Statements that are read for rows** are written as them again. -/
theorem lines_of_rows {P : Node × List Char → Shape → Prop}
    (hP : ∀ x s, P x s → ∀ l, Node.isComment ⟨l, s⟩ = false ∧ statementText L ⟨l, s⟩ = .ok (Text.ofChars x.2)) {first : Bool}
    {rows : List (Row (Node × List Char))} {ms : List Node} (h : Aligned (NodeOf P) first rows ms) : ∀ {previous : Option Node},
    previous.isNone = first → (first = true → rows.head?.all (fun row => !row.blank) = true) →
    rows.all Row.isSound = true →
    ∃ ls, blockLines L previous ms = .ok ls ∧ linesText ls = Text.ofChars (rowsChars (indentChars L) [] Prod.snd rows) := by
  induction h with
  | nil => exact fun _ _ _ => ⟨[], by rw [blockLines]; rfl, rfl⟩
  | @cons first row m rows ms h _ ih =>
    intro previous hprevious hfirst hsound
    rw [List.all_cons, Bool.and_eq_true] at hsound
    obtain ⟨ls, hls, htext⟩ := @ih (some m) rfl nofun hsound.2
    have hblank := blank_of_row h hprevious fun hf => by simpa using hfirst hf
    obtain ⟨t, ht, hline⟩ : ∃ t, statementText L m = .ok t ∧
        linesText (if previous.any (blankBetween · m) = true then [[]] else []) ++ linesText (statementLines L m.layout t) =
          Text.ofChars (Row.chars (indentChars L) [] Prod.snd row) := by
      cases h with
      | comment blank c =>
        have hline : linesText (statementLines L { blankBefore := recordedBlank first blank } c.render) = _ :=
          statementLines_comment hsound.1 rfl
        refine ⟨c.render, by rw [statementText]; rfl, ?_⟩
        rw [hblank, linesText_blank]
        change _ ++ linesText (statementLines L { blankBefore := recordedBlank first blank } c.render) = _
        rw [hline, ← Text.ofChars_append]
        rfl
      | @item blank above x trailing s hs =>
        obtain ⟨hc, ht⟩ := hP x s hs { comments := above, trailing, blankBefore := recordedBlank first blank }
        refine ⟨_, ht, ?_⟩
        rw [hblank]
        exact @statementLines_item L x.2 ⟨{ comments := above, trailing, blankBefore := recordedBlank first blank }, s⟩ x.1 hsound.1 blank
    refine ⟨_, by rw [blockLines, ht, hls]; rfl, ?_⟩
    rw [linesText_append, linesText_append, hline, htext, ← Text.ofChars_append, rowsChars, rowsChars, List.flatMap_cons]

end

end ApiRoutes.Script
