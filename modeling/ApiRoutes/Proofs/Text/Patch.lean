import ApiRoutes.Proofs.Text.Hunks
/-!
# Patches applied

A patch is empty exactly when the texts are equal (`render_eq_nil_iff`).  Read as a unified diff, it leads from the old
text to the new one (`patched?_render`), with one exception: when the old text ends in a line without an end, and the
patch puts other lines in its place, that line and the first of the others become one line of the patch, which the old
text does not have (`applyLines?_openLine`).
-/
namespace ApiRoutes.Patch

variable {oldName newName old new : Text} {ps : List (Piece Text)} {last : Piece Text}

/-! ## Empty patches -/

theorem hunks_difference_eq_nil_iff : hunks (difference (linesOf old) (linesOf new)) = [] ↔ old = new := by
  rw [hunks_eq_nil_iff]
  constructor
  · intro h
    refine linesOf_inj ?_
    have hold := flatMap_old_difference (linesOf old) (linesOf new)
    have hnew := flatMap_new_difference (linesOf old) (linesOf new)
    rcases h with h | ⟨ls, h⟩ <;> rw [h] at hold hnew <;> exact hold.symm.trans hnew
  · rintro rfl
    exact (difference_self _).imp id fun h => ⟨_, h⟩

/-- **A patch is empty exactly when the texts are equal.** -/
theorem render_eq_nil_iff : render oldName newName old new = [] ↔ old = new := by
  refine Iff.trans ?_ hunks_difference_eq_nil_iff
  unfold render
  split
  · rename_i h
    exact iff_of_true rfl h
  · rename_i h
    exact iff_of_false (by simp [Text.ofString]) h

/-- The lines of a patch: those with the names, and those of the hunks. -/
theorem render_eq_flatten (h : old ≠ new) : render oldName newName old new =
    (Text.ofString "--- " ++ oldName ++ [.scalar '\n']) ++ ((Text.ofString "+++ " ++ newName ++ [.scalar '\n']) ++
      ((hunks (difference (linesOf old) (linesOf new))).flatMap Hunk.lines).flatten) := by
  have hlines := flatten_flatMap Hunk.lines (hunks (difference (linesOf old) (linesOf new)))
  simp only [Hunk.flatten_lines] at hlines
  rw [hlines, render]
  split
  · rename_i hnil
    exact absurd (hunks_difference_eq_nil_iff.1 hnil) h
  · simp [Text.ofString]

/-! ## Lines without an end -/

/-- The lines of a text that are replaced by others are the last ones, and the very last has no end. -/
def ReplacesOpenLine (ps : List (Piece Text)) : Prop :=
  ∃ old l new, ps.getLast? = some (.changed (old ++ [l]) new) ∧ IsOpen l ∧ new ≠ []

/-- Before the last piece of a difference, every line of the one text has its end.  This is plain when the piece has
lines of this text; when it has none, the piece before it has lines of both texts, and the other text goes on. -/
theorem isEnded_of_alternates {f g : Piece Text → List Text} (hf : ∀ ls, f (.same ls) = ls)
    (hg : ∀ ls, g (.same ls) = ls) (h : Alternates (ps ++ [last])) (hlast : f last ≠ [] ∨ g last ≠ [])
    (hlines : AreLines ((ps ++ [last]).flatMap f)) (hlines' : AreLines ((ps ++ [last]).flatMap g)) :
    ∀ l ∈ ps.flatMap f, IsEnded l := by
  rw [List.flatMap_append, List.flatMap_singleton] at hlines hlines'
  by_cases hempty : f last = []
  · have hchanged : last.isSame = false := by
      cases last with
      | changed => rfl
      | same ls =>
        rw [hf] at hempty
        rw [hf, hg, hempty] at hlast
        simp at hlast
    have hother := hlast.resolve_left fun h => h hempty
    rcases List.eq_nil_or_concat ps with rfl | ⟨init, q, rfl⟩
    · nofun
    · rw [List.concat_eq_append] at *
      have hq : q.isSame = true := by
        have hapart := (List.isChain_append.1 h.apart).2.2 q (by simp) last (by simp)
        exact hapart.resolve_right (ne_true_of_eq_false hchanged)
      cases q with
      | changed => cases hq
      | same ls =>
        have hls : ls ≠ [] := h.inhabited (.same ls) (by simp)
        rw [List.flatMap_append, List.flatMap_singleton] at hlines hlines' ⊢
        rw [hf] at hlines ⊢
        rw [hg] at hlines'
        rw [hempty, List.append_nil] at hlines
        exact List.forall_mem_append.2 ⟨hlines.isEnded_of_append hls,
          (List.forall_mem_append.1 (hlines'.isEnded_of_append hother)).2⟩
  · exact hlines.isEnded_of_append hempty

theorem hasEnds_of_alternates (h : Alternates (ps ++ [last])) (hold : AreLines ((ps ++ [last]).flatMap Piece.old))
    (hnew : AreLines ((ps ++ [last]).flatMap Piece.new)) : ∀ p ∈ ps, HasEnds p := by
  have hlast : last.old ≠ [] ∨ last.new ≠ [] := by
    have := h.inhabited last (by simp)
    cases last with
    | same ls => exact .inl this
    | changed o n => exact this
  have hold' := isEnded_of_alternates (fun _ => rfl) (fun _ => rfl) h hlast hold hnew
  have hnew' := isEnded_of_alternates (fun _ => rfl) (fun _ => rfl) h hlast.symm hnew hold
  intro p hp
  exact List.forall_mem_append.2 ⟨fun l hl => hold' l (List.mem_flatMap.2 ⟨p, hp, hl⟩),
    fun l hl => hnew' l (List.mem_flatMap.2 ⟨p, hp, hl⟩)⟩

/-! ## The last piece -/

theorem AreLines.marked {ls : List Text} {mark : Char} (hmark : endsLine mark = false) (h : AreLines ls) :
    AreLines (markedLines mark ls) := by
  unfold markedLines
  refine ⟨fun l hl => ?_, fun l hl => ?_⟩
  · obtain ⟨x, hx, rfl⟩ := List.mem_map.1 hl
    exact (h.all x hx).imp (.cons hmark) (.cons hmark)
  · rw [← List.map_dropLast] at hl
    obtain ⟨x, hx, rfl⟩ := List.mem_map.1 hl
    exact (h.ended x hx).cons hmark

theorem head?_pieceLines {p : Piece Text} : ∀ l ∈ pieceLines p, l.head? ≠ some (.scalar '\n') := by
  have hmark (mark : Char) (hmark : mark ≠ '\n') (ls : List Text) :
      ∀ l ∈ markedLines mark ls, l.head? ≠ some (.scalar '\n') := by
    intro l hl
    obtain ⟨x, hx, rfl⟩ := List.mem_map.1 hl
    simpa using hmark
  cases p with
  | same ls => exact hmark ' ' (by decide) ls
  | changed o n => exact List.forall_mem_append.2 ⟨hmark '-' (by decide) o, hmark '+' (by decide) n⟩

/-- A piece is read as it is shown, unless the line before those that come has no end. -/
theorem linesOf_pieceText {p : Piece Text} (hold : AreLines p.old) (hnew : AreLines p.new)
    (h : ¬ ReplacesOpenLine [p]) :
    linesOf (pieceText (shown p)) = pieceLines (shown p) := by
  rw [← flatten_pieceLines]
  refine linesOf_flatten ?_ head?_pieceLines
  cases p with
  | same ls =>
    refine AreLines.marked rfl (@AreLines.append_left _ (ls.drop context) ?_)
    rwa [List.take_append_drop]
  | changed o n =>
    change AreLines (markedLines '-' o ++ markedLines '+' n)
    change AreLines o at hold
    by_cases hn : n = []
    · subst hn
      rw [markedLines, markedLines, List.map_nil, List.append_nil]
      exact hold.marked rfl
    · rcases hold.isEnded_or_isOpen with hended | ⟨init, l, rfl, hl⟩
      · exact AreLines.append (fun l hl => (isWhole_marked rfl hended l hl).1) (hnew.marked rfl)
      · exact absurd ⟨init, l, n, rfl, hl, hn⟩ h

/-- The end of the patch that is shown is the end of the new text. -/
theorem applyLines?_shown (r w : Nat) (p : Piece Text) :
    applyLines? ⟨r, w, (shown p).old.length, (shown p).new.length⟩ (pieceLines (shown p)) p.old = some p.new := by
  have hturns := shows_piece (shown p) r w 0 0
  cases p with
  | same ls =>
    have := hturns [] (ls.drop context)
    rw [List.append_nil] at this
    have hparts : (shown (.same ls)).old ++ ls.drop context = ls := List.take_append_drop context ls
    have hparts' : (shown (.same ls)).new ++ ls.drop context = ls := List.take_append_drop context ls
    rw [hparts] at this
    exact this.trans (congrArg some hparts')
  | changed o n =>
    have := hturns [] []
    rw [List.append_nil, List.append_nil] at this
    exact this.trans (congrArg some (List.append_nil n))

/-- A line that is taken out, but does not stand in the old text. -/
theorem applyLines?_removed_ne {r w a b : Nat} {l x : Text} {lines rest : List Text} (h : x ≠ l) :
    applyLines? ⟨r, w, a + 1, b⟩ ((.scalar '-' :: x) :: lines) (l :: rest) = none := by
  simp [applyLines?, Place.step?, Place.isBetween, Place.turn?, h]

/-- **A line without an end runs into the line that comes for it.** -/
theorem applyLines?_openLine (r w : Nat) {o n : List Text} {l : Text} (ho : ∀ x ∈ o, IsEnded x) (hl : IsOpen l)
    (hn : n ≠ []) : applyLines? ⟨r, w, (o ++ [l]).length, n.length⟩ (linesOf (pieceText (.changed (o ++ [l]) n)))
      (o ++ [l]) = none := by
  obtain ⟨y, n, rfl⟩ := List.exists_cons_of_ne_nil hn
  have htext : pieceText (.changed (o ++ [l]) (y :: n)) =
      (markedLines '-' o).flatten ++ ((.scalar '-' :: l) ++ .scalar '+' :: (y ++ marked '+' n)) := by
    simp [pieceText, marked, markedLines, List.flatMap]
  obtain ⟨t, more, hplus⟩ : ∃ t more, linesOf (.scalar '+' :: (y ++ marked '+' n)) = (.scalar '+' :: t) :: more := by
    rw [linesOf_cons_within rfl]
    cases linesOf (y ++ marked '+' n) <;> exact ⟨_, _, rfl⟩
  have hlines : linesOf (pieceText (.changed (o ++ [l]) (y :: n))) =
      markedLines '-' o ++ (.scalar '-' :: (l ++ .scalar '+' :: t)) :: more := by
    rw [htext, linesOf_flatten_append (fun x hx => isWhole_marked rfl ho x hx) (by simp),
      linesOf_within_append (hl.2.cons rfl) hplus]
    rfl
  have hturns := shows_removed o r w 1 (y :: n).length
  rw [hlines, List.length_append, List.length_singleton]
  rw [List.length_nil, Nat.zero_add] at hturns
  rw [hturns, applyLines?_removed_ne (by simp)]
  rfl

/-! ## The whole patch -/

/-- **A patch is read hunk after hunk, up to its last lines.** -/
theorem patched?_render_eq (hold : IsWithin oldName) (hnew : IsWithin newName) (hne : old ≠ new)
    (h : difference (linesOf old) (linesOf new) = ps ++ [last]) :
    ∃ r w, patched? (render oldName newName old new) old =
      (applyLines? ⟨r, w, (shown last).old.length, (shown last).new.length⟩
        (linesOf (pieceText (shown last))) last.old).map fun ls => (ps.flatMap Piece.new ++ ls).flatten := by
  have holdLines := flatMap_old_difference (linesOf old) (linesOf new)
  have hnewLines := flatMap_new_difference (linesOf old) (linesOf new)
  have halternates := difference_alternates (linesOf old) (linesOf new)
  rw [h] at holdLines hnewLines halternates
  have hends := hasEnds_of_alternates halternates (holdLines ▸ linesOf_areLines old) (hnewLines ▸ linesOf_areLines new)
  have hhunks : hunks (ps ++ [last]) ≠ [] := h ▸ fun hnil => hne (hunks_difference_eq_nil_iff.1 hnil)
  obtain ⟨lines, r, w, hlines, hwhole, hturns⟩ := hunks_turns hhunks hends
  refine ⟨r, w, ?_⟩
  have htext : render oldName newName old new = ((Text.ofString "--- " ++ oldName ++ [.scalar '\n']) ::
      (Text.ofString "+++ " ++ newName ++ [.scalar '\n']) :: lines).flatten ++ pieceText (shown last) := by
    rw [render_eq_flatten hne, h, hlines]
    simp [flatten_pieceLines]
  have hread : linesOf (render oldName newName old new) = (Text.ofString "--- " ++ oldName ++ [.scalar '\n']) ::
      (Text.ofString "+++ " ++ newName ++ [.scalar '\n']) :: (lines ++ linesOf (pieceText (shown last))) := by
    have hfirst : IsWithin (Text.ofString "--- ") := by decide
    have hsecond : IsWithin (Text.ofString "+++ ") := by decide
    rw [htext, linesOf_flatten_append]
    · rfl
    · refine List.forall_mem_cons.2 ⟨⟨isEnded_lineFeed (hfirst.append hold), ?_⟩,
        List.forall_mem_cons.2 ⟨⟨isEnded_lineFeed (hsecond.append hnew), ?_⟩, hwhole⟩⟩ <;> simp [Text.ofString]
    · have := head?_flatten_append_ne (r := []) (head?_pieceLines (p := shown last)) (by decide)
      rwa [List.append_nil, flatten_pieceLines] at this
  have hturns := hturns (linesOf (pieceText (shown last))) last.old
  rw [List.flatMap_append, List.flatMap_singleton] at holdLines
  rw [holdLines] at hturns
  rw [patched?, hread]
  simp only [List.append_assoc, Text.startsWith_append, and_self, if_true]
  rw [hturns, Option.map_map]
  rfl

/-- **A patch leads from the old text to the new one, unless lines come for a line without an end.** -/
theorem patched?_render (hold : IsWithin oldName) (hnew : IsWithin newName) :
    patched? (render oldName newName old new) old = some new ↔
      ¬ ReplacesOpenLine (difference (linesOf old) (linesOf new)) := by
  by_cases hne : old = new
  · subst hne
    rw [render_eq_nil_iff.2 rfl]
    refine iff_of_true rfl ?_
    rintro ⟨o, l, n, h, -, -⟩
    rcases difference_self (linesOf old) with hself | hself <;> rw [hself] at h <;> cases h
  · obtain hnil | ⟨ps, last, hlast⟩ := List.eq_nil_or_concat (difference (linesOf old) (linesOf new))
    · exact absurd (hunks_difference_eq_nil_iff.1 (hunks_eq_nil_iff.2 (.inl hnil))) hne
    rw [List.concat_eq_append] at hlast
    obtain ⟨r, w, happly⟩ := patched?_render_eq hold hnew hne hlast
    have holdLines := flatMap_old_difference (linesOf old) (linesOf new)
    have hnewLines := flatMap_new_difference (linesOf old) (linesOf new)
    rw [hlast, List.flatMap_append, List.flatMap_singleton] at holdLines hnewLines
    have hlinesOld : AreLines last.old := (holdLines ▸ linesOf_areLines old).append_right
    have hlinesNew : AreLines last.new := (hnewLines ▸ linesOf_areLines new).append_right
    have hopen : ReplacesOpenLine (ps ++ [last]) ↔ ReplacesOpenLine [last] := by
      simp only [ReplacesOpenLine, List.getLast?_concat, List.getLast?_singleton]
    rw [happly, hlast, hopen]
    by_cases hreplaces : ReplacesOpenLine [last]
    · obtain ⟨o, l, n, h, hl, hn⟩ := hreplaces
      cases h
      have hended := hlinesOld.isEnded_of_append (List.cons_ne_nil l [])
      have hnone := applyLines?_openLine r w hended hl hn
      refine iff_of_false (fun h => ?_) fun hno => hno ⟨o, l, n, rfl, hl, hn⟩
      obtain ⟨_, hsome, -⟩ := Option.map_eq_some_iff.1 h
      exact absurd (hnone.symm.trans hsome) nofun
    · rw [linesOf_pieceText hlinesOld hlinesNew hreplaces, applyLines?_shown]
      refine iff_of_true (congrArg some ?_) hreplaces
      exact (congrArg List.flatten hnewLines).trans (flatten_linesOf new)

end ApiRoutes.Patch
