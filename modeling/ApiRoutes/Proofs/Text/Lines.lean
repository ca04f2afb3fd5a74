import ApiRoutes.Text.Patch
/-!
# Lines

The lines of a text, as `Patch.linesOf` has them: together they are the text (`flatten_linesOf`), and each but the last
has an end of its own (`linesOf_areLines`).  Texts that are lines already, one after the other, are found again
(`linesOf_flatten_append`).
-/
namespace ApiRoutes.Patch

variable {c : CodePoint} {l r t : Text} {ls : List Text}

/-- What can stand at the end of a line. -/
inductive IsEnding : Text → Prop where
  | one {c : CodePoint} (h : endsLine c = true) : IsEnding [c]
  | two : IsEnding [.scalar '\r', .scalar '\n']

/-- No code point of the text ends a line. -/
def IsWithin (t : Text) : Prop := ∀ c ∈ t, endsLine c = false

instance (t : Text) : Decidable (IsWithin t) := inferInstanceAs (Decidable (∀ c ∈ t, endsLine c = false))

/-- A line with its end. -/
def IsEnded (l : Text) : Prop := ∃ body ending, l = body ++ ending ∧ IsWithin body ∧ IsEnding ending

/-- A line without an end. -/
def IsOpen (l : Text) : Prop := l ≠ [] ∧ IsWithin l

/-- Lines, each but the last with its end. -/
structure AreLines (ls : List Text) : Prop where
  all : ∀ l ∈ ls, IsEnded l ∨ IsOpen l
  ended : ∀ l ∈ ls.dropLast, IsEnded l

theorem IsWithin.cons (hc : endsLine c = false) (h : IsWithin t) : IsWithin (c :: t) := List.forall_mem_cons.2 ⟨hc, h⟩

theorem IsWithin.append (ht : IsWithin t) (hr : IsWithin r) : IsWithin (t ++ r) := List.forall_mem_append.2 ⟨ht, hr⟩

theorem IsEnded.cons (hc : endsLine c = false) (h : IsEnded l) : IsEnded (c :: l) := by
  obtain ⟨body, ending, rfl, hbody, hending⟩ := h
  exact ⟨c :: body, ending, rfl, hbody.cons hc, hending⟩

theorem IsOpen.cons (hc : endsLine c = false) (h : IsOpen l) : IsOpen (c :: l) := ⟨List.cons_ne_nil c l, h.2.cons hc⟩

theorem isEnded_lineFeed (h : IsWithin l) : IsEnded (l ++ [.scalar '\n']) := ⟨l, _, rfl, h, .one rfl⟩

/-! ## One line after the other -/

theorem linesOf_pair (r : Text) :
    linesOf (.scalar '\r' :: .scalar '\n' :: r) = [.scalar '\r', .scalar '\n'] :: linesOf r := rfl

theorem linesOf_cons (h : c = .scalar '\r' → r.head? ≠ some (.scalar '\n')) :
    linesOf (c :: r) = if endsLine c then [c] :: linesOf r else prolong c (linesOf r) := by
  rw [linesOf]
  rintro r' rfl rfl
  exact h rfl rfl

theorem linesOf_cons_within (h : endsLine c = false) (r : Text) : linesOf (c :: r) = prolong c (linesOf r) := by
  rw [linesOf_cons, if_neg (ne_true_of_eq_false h)]
  rintro rfl
  exact absurd h (by decide)

/-- What does not end a line is put in front of the next one. -/
theorem linesOf_within_append (h : IsWithin l) (hr : linesOf r = t :: ls) : linesOf (l ++ r) = (l ++ t) :: ls := by
  induction l with
  | nil => exact hr
  | cons c l ih =>
    obtain ⟨hc, hl⟩ := List.forall_mem_cons.1 h
    rw [List.cons_append, linesOf_cons_within hc, ih hl]
    rfl

theorem linesOf_open (h : IsOpen l) : linesOf l = [l] := by
  obtain ⟨hne, hwithin⟩ := h
  have hsplit := List.dropLast_concat_getLast hne
  have hlast : linesOf [l.getLast hne] = [[l.getLast hne]] := by
    rw [linesOf_cons_within (hwithin _ (List.getLast_mem hne))]
    rfl
  rw [← hsplit]
  exact linesOf_within_append (fun c hc => hwithin c ((List.dropLast_sublist l).subset hc)) hlast

/-- **A line with its end is the first one**, unless a line feed follows that would belong to it. -/
theorem linesOf_ended_append (h : IsEnded l) (hr : r.head? ≠ some (.scalar '\n')) :
    linesOf (l ++ r) = l :: linesOf r := by
  obtain ⟨body, ending, rfl, hbody, hending⟩ := h
  rw [List.append_assoc]
  refine linesOf_within_append hbody ?_
  cases hending with
  | one hc => rw [List.singleton_append, linesOf_cons fun _ => hr, if_pos hc]
  | two => exact linesOf_pair r

theorem head?_flatten_append_ne (hls : ∀ l ∈ ls, l.head? ≠ some c) (hr : r.head? ≠ some c) :
    (ls.flatten ++ r).head? ≠ some c := by
  induction ls with
  | nil => exact hr
  | cons l ls ih =>
    obtain ⟨hl, hrest⟩ := List.forall_mem_cons.1 hls
    cases l with
    | nil => exact ih hrest
    | cons => exact hl

theorem linesOf_flatten_append (hls : ∀ l ∈ ls, IsEnded l ∧ l.head? ≠ some (.scalar '\n'))
    (hr : r.head? ≠ some (.scalar '\n')) : linesOf (ls.flatten ++ r) = ls ++ linesOf r := by
  induction ls with
  | nil => rfl
  | cons l ls ih =>
    obtain ⟨⟨hl, -⟩, hrest⟩ := List.forall_mem_cons.1 hls
    have hhead := head?_flatten_append_ne (fun l hl => (hrest l hl).2) hr
    rw [List.flatten_cons, List.append_assoc, linesOf_ended_append hl hhead, ih hrest, List.cons_append]

/-! ## The lines of a text -/

theorem flatten_prolong (c : CodePoint) (ls : List Text) : (prolong c ls).flatten = c :: ls.flatten := by
  cases ls <;> rfl

/-- **The lines of a text are the text.** -/
theorem flatten_linesOf (t : Text) : (linesOf t).flatten = t := by
  fun_induction linesOf t with
  | case1 => rfl
  | case2 r ih => rw [List.flatten_cons, ih]; rfl
  | case3 c r _ _ ih => rw [List.flatten_cons, ih]; rfl
  | case4 c r _ _ ih => rw [flatten_prolong, ih]

theorem linesOf_inj {u : Text} (h : linesOf t = linesOf u) : t = u := by rw [← flatten_linesOf t, h, flatten_linesOf]

theorem AreLines.cons (hl : IsEnded l) (h : AreLines ls) : AreLines (l :: ls) := by
  refine ⟨List.forall_mem_cons.2 ⟨.inl hl, h.all⟩, fun x hx => ?_⟩
  cases ls with
  | nil => cases hx
  | cons l' ls =>
    rw [List.dropLast_cons_of_ne_nil (List.cons_ne_nil l' ls)] at hx
    exact (List.forall_mem_cons.2 ⟨hl, h.ended⟩ : ∀ y ∈ l :: (l' :: ls).dropLast, IsEnded y) x hx

theorem AreLines.prolong (hc : endsLine c = false) (h : AreLines ls) : AreLines (Patch.prolong c ls) := by
  cases ls with
  | nil =>
    have hopen : IsOpen [c] := ⟨List.cons_ne_nil c [], by simpa [IsWithin] using hc⟩
    exact ⟨List.forall_mem_singleton.2 (.inr hopen), nofun⟩
  | cons l ls =>
    obtain ⟨hl, hls⟩ := List.forall_mem_cons.1 h.all
    refine ⟨List.forall_mem_cons.2 ⟨hl.imp (.cons hc) (.cons hc), hls⟩, fun x hx => ?_⟩
    have hended := h.ended
    cases ls with
    | nil => cases hx
    | cons l' ls =>
      rw [List.dropLast_cons_of_ne_nil (List.cons_ne_nil l' ls)] at hended
      obtain ⟨hfirst, hrest⟩ := List.forall_mem_cons.1 hended
      exact (List.forall_mem_cons.2 ⟨hfirst.cons hc, hrest⟩ : ∀ y ∈ (c :: l) :: (l' :: ls).dropLast, IsEnded y) x hx

/-- **Each line but the last has its end.** -/
theorem linesOf_areLines (t : Text) : AreLines (linesOf t) := by
  fun_induction linesOf t with
  | case1 => exact ⟨by simp, by simp⟩
  | case2 r ih => exact ih.cons ⟨[], _, rfl, by simp [IsWithin], .two⟩
  | case3 c r _ h ih => exact ih.cons ⟨[], _, rfl, by simp [IsWithin], .one h⟩
  | case4 c r _ h ih => exact ih.prolong (eq_false_of_ne_true h)

/-! ## Lists of lines -/

section

variable {xs ys : List Text}

theorem areLines_of_isEnded (h : ∀ l ∈ ls, IsEnded l) : AreLines ls :=
  ⟨fun l hl => .inl (h l hl), fun l hl => h l (List.dropLast_subset ls hl)⟩

theorem AreLines.isEnded_of_append (h : AreLines (xs ++ ys)) (hys : ys ≠ []) : ∀ l ∈ xs, IsEnded l := by
  have hended := h.ended
  rw [List.dropLast_append_of_ne_nil hys] at hended
  exact (List.forall_mem_append.1 hended).1

theorem AreLines.append_left (h : AreLines (xs ++ ys)) : AreLines xs := by
  by_cases hys : ys = []
  · rwa [hys, List.append_nil] at h
  · exact areLines_of_isEnded (h.isEnded_of_append hys)

theorem AreLines.append_right (h : AreLines (xs ++ ys)) : AreLines ys := by
  refine ⟨(List.forall_mem_append.1 h.all).2, fun l hl => ?_⟩
  have hys : ys ≠ [] := by
    rintro rfl
    cases hl
  have hended := h.ended
  rw [List.dropLast_append_of_ne_nil hys] at hended
  exact (List.forall_mem_append.1 hended).2 l hl

theorem AreLines.append (hxs : ∀ l ∈ xs, IsEnded l) (hys : AreLines ys) : AreLines (xs ++ ys) := by
  induction xs with
  | nil => exact hys
  | cons x xs ih =>
    obtain ⟨hx, hxs⟩ := List.forall_mem_cons.1 hxs
    exact (ih hxs).cons hx

theorem AreLines.isEnded_or_isOpen (h : AreLines ls) :
    (∀ l ∈ ls, IsEnded l) ∨ ∃ init l, ls = init ++ [l] ∧ IsOpen l := by
  rcases List.eq_nil_or_concat ls with rfl | ⟨init, l, rfl⟩
  · exact .inl nofun
  · rw [List.concat_eq_append] at *
    rcases h.all l (List.mem_append_right init (List.mem_singleton_self l)) with hl | hl
    · exact .inl (List.forall_mem_append.2 ⟨h.isEnded_of_append (List.cons_ne_nil l []), List.forall_mem_singleton.2 hl⟩)
    · exact .inr ⟨init, l, rfl, hl⟩

/-- **Lines are the lines of the text that they make up**, when none starts with a line feed. -/
theorem linesOf_flatten (h : AreLines ls) (hls : ∀ l ∈ ls, l.head? ≠ some (.scalar '\n')) :
    linesOf ls.flatten = ls := by
  rcases List.eq_nil_or_concat ls with rfl | ⟨init, x, rfl⟩
  · rfl
  · rw [List.concat_eq_append] at *
    have hinit := h.isEnded_of_append (List.cons_ne_nil x [])
    obtain ⟨hinit', hx⟩ := List.forall_mem_append.1 hls
    have hx := hx x (List.mem_singleton_self x)
    rw [List.flatten_append, List.flatten_singleton, linesOf_flatten_append (fun l hl => ⟨hinit l hl, hinit' l hl⟩) hx]
    rcases h.all x (List.mem_append_right init (List.mem_singleton_self x)) with hended | hopen
    · have := linesOf_ended_append (r := []) hended nofun
      rw [List.append_nil] at this
      rw [this]
      rfl
    · rw [linesOf_open hopen]

end

end ApiRoutes.Patch
