import Mathlib.Data.List.Forall2
/-!
# Results that come step by step

Two steps give a result when both do, and the steps for the items of a list when all do.  They fail with the first
one that fails.
-/
namespace ApiRoutes

variable {ε α β : Type}

/-- Two steps give a result when the first one does and the second one does from there. -/
theorem bind_eq_ok {x : Except ε α} {f : α → Except ε β} {b : β} :
    (x >>= f) = .ok b ↔ ∃ a, x = .ok a ∧ f a = .ok b := by
  cases x with
  | error y => simp [bind, Except.bind]
  | ok a => simp [bind, Except.bind]

theorem map_eq_ok {x : Except ε α} {f : α → β} {b : β} : x.map f = .ok b ↔ ∃ a, x = .ok a ∧ f a = b := by
  cases x with
  | error y => simp [Except.map]
  | ok a => simp [Except.map]

/-- The partner of a member, where lists are related member by member. -/
theorem exists_of_forall₂ {R : α → β → Prop} {xs : List α} {ys : List β} {y : β}
    (h : List.Forall₂ R xs ys) (hy : y ∈ ys) : ∃ x ∈ xs, R x y := by
  induction h with
  | nil => cases hy
  | cons h _ ih =>
    cases hy with
    | head => exact ⟨_, List.mem_cons_self, h⟩
    | tail _ hy =>
      obtain ⟨x, hx, hr⟩ := ih hy
      exact ⟨x, List.mem_cons_of_mem _ hx, hr⟩

theorem mapM_eq_ok {f : α → Except ε β} : ∀ {xs : List α} {ys : List β},
    xs.mapM f = .ok ys ↔ List.Forall₂ (fun x y => f x = .ok y) xs ys
  | [], ys => by
    rw [List.mapM_nil, List.forall₂_nil_left_iff]
    exact ⟨fun h => (Except.ok.inj h).symm, fun h => h ▸ rfl⟩
  | x :: xs, ys => by
    rw [List.mapM_cons, bind_eq_ok]
    constructor
    · rintro ⟨y, hy, h⟩
      obtain ⟨rest, hrest, h⟩ := bind_eq_ok.1 h
      cases h
      exact .cons hy (mapM_eq_ok.1 hrest)
    · intro h
      cases h with
      | cons hy hrest => exact ⟨_, hy, bind_eq_ok.2 ⟨_, mapM_eq_ok.2 hrest, rfl⟩⟩

theorem mapM_ok_imp {f g : α → Except ε β} {xs : List α} {ys : List β}
    (hfg : ∀ x ∈ xs, ∀ y, f x = .ok y → g x = .ok y) (h : xs.mapM f = .ok ys) : xs.mapM g = .ok ys :=
  mapM_eq_ok.2 (((List.forall₂_and_left xs ys).2 ⟨hfg, mapM_eq_ok.1 h⟩).imp fun _ y hx => hx.1 y hx.2)

theorem mapM_ok_filter {f : α → Except ε β} {p : α → Bool} {q : β → Bool} {xs : List α} {ys : List β}
    (hpq : ∀ x y, f x = .ok y → q y = p x) (h : xs.mapM f = .ok ys) : (xs.filter p).mapM f = .ok (ys.filter q) :=
  mapM_eq_ok.2 (List.rel_filter (fun x y hx => iff_of_eq (congrArg (· = true) (hpq x y hx).symm)) (mapM_eq_ok.1 h))

theorem exists_mapM_ok {f : α → Except ε β} : ∀ {xs : List α},
    (∃ ys, xs.mapM f = .ok ys) ↔ ∀ x ∈ xs, ∃ y, f x = .ok y
  | [] => ⟨fun _ x hx => absurd hx List.not_mem_nil, fun _ => ⟨[], rfl⟩⟩
  | x :: xs => by
    rw [List.forall_mem_cons, ← exists_mapM_ok, List.mapM_cons]
    simp only [bind_eq_ok]
    constructor
    · rintro ⟨ys, y, hy, rest, hrest, -⟩
      exact ⟨⟨y, hy⟩, rest, hrest⟩
    · rintro ⟨⟨y, hy⟩, rest, hrest⟩
      exact ⟨_, y, hy, rest, hrest, rfl⟩

/-- Two steps fail when the first one does, or the second one from there. -/
theorem bind_eq_error {x : Except ε α} {f : α → Except ε β} {y : ε} :
    (x >>= f) = .error y ↔ x = .error y ∨ ∃ a, x = .ok a ∧ f a = .error y := by
  cases x with
  | error z => simp [bind, Except.bind]
  | ok a => simp [bind, Except.bind]

theorem map_eq_error {x : Except ε α} {g : α → β} {y : ε} : x.map g = .error y ↔ x = .error y := by
  cases x <;> simp [Except.map]

/-- Steps for a list fail with the first one that fails. -/
theorem mapM_eq_error {f : α → Except ε β} {x : ε} : ∀ {xs : List α},
    xs.mapM f = .error x ↔ ∃ pre a post, xs = pre ++ a :: post ∧ (∀ b ∈ pre, ∃ y, f b = .ok y) ∧ f a = .error x
  | [] => by simp [pure, Except.pure]
  | a :: xs => by
    have hrest : ∀ y, (xs.mapM f >>= fun ys => pure (y :: ys)) = .error x ↔ xs.mapM f = .error x := fun y => by
      rw [bind_eq_error]
      simp [pure, Except.pure]
    rw [List.mapM_cons, bind_eq_error]
    simp only [hrest]
    constructor
    · rintro (ha | ⟨y, hy, h⟩)
      · exact ⟨[], a, xs, rfl, by simp, ha⟩
      · obtain ⟨pre, b, post, rfl, hpre, hb⟩ := mapM_eq_error.1 h
        exact ⟨a :: pre, b, post, rfl, List.forall_mem_cons.2 ⟨⟨y, hy⟩, hpre⟩, hb⟩
    · rintro ⟨pre, b, post, hsplit, hpre, hb⟩
      cases pre with
      | nil =>
        cases hsplit
        exact .inl hb
      | cons c pre =>
        cases hsplit
        obtain ⟨hy, hpre⟩ := List.forall_mem_cons.1 hpre
        obtain ⟨y, hy⟩ := hy
        exact .inr ⟨y, hy, mapM_eq_error.2 ⟨pre, b, post, rfl, hpre, hb⟩⟩

/-- A run of steps fails with the first one that fails. -/
theorem foldlM_eq_error {f : β → α → Except ε β} {x : ε} : ∀ {xs : List α} {b : β},
    xs.foldlM f b = .error x ↔ ∃ pre a post c, xs = pre ++ a :: post ∧ pre.foldlM f b = .ok c ∧ f c a = .error x
  | [], b => by simp [pure, Except.pure]
  | a :: xs, b => by
    rw [List.foldlM_cons, bind_eq_error]
    constructor
    · rintro (ha | ⟨b', hb, h⟩)
      · exact ⟨[], a, xs, b, rfl, rfl, ha⟩
      · obtain ⟨pre, a', post, c, rfl, hpre, hc⟩ := foldlM_eq_error.1 h
        exact ⟨a :: pre, a', post, c, rfl, by rw [List.foldlM_cons, bind_eq_ok]; exact ⟨b', hb, hpre⟩, hc⟩
    · rintro ⟨pre, a', post, c, hsplit, hpre, hc⟩
      cases pre with
      | nil =>
        cases hsplit
        cases hpre
        exact .inl hc
      | cons d pre =>
        cases hsplit
        obtain ⟨b', hb, hpre⟩ := bind_eq_ok.1 hpre
        exact .inr ⟨b', hb, foldlM_eq_error.2 ⟨pre, a', post, c, rfl, hpre, hc⟩⟩

end ApiRoutes
