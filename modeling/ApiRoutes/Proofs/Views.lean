import Mathlib.Data.List.Forall2
import ApiRoutes.Proofs.FirstMatch
/-!
# Views of lists

Two lists look alike through a function when it makes the same list of both.  Searches and changes
that go by what is seen keep such lists alike; a change that cannot be seen leaves a list alike to
itself.
-/
namespace ApiRoutes

variable {α β γ : Type} {f : α → β} {p : α → Bool} {g : α → α} {n : α}

theorem map_find?_congr (hp : ∀ x y, f x = f y → p x = p y) : ∀ {xs ys : List α},
    xs.map f = ys.map f → (xs.find? p).map f = (ys.find? p).map f
  | [], [], _ => rfl
  | [], _ :: _, h => by cases h
  | _ :: _, [], h => by cases h
  | x :: xs, y :: ys, h => by
    rw [List.map_cons, List.map_cons, List.cons.injEq] at h
    have hxy := hp x y h.1
    by_cases hx : p x = true
    · rw [List.find?_cons_of_pos hx, List.find?_cons_of_pos (hxy ▸ hx), Option.map_some,
        Option.map_some, h.1]
    · rw [List.find?_cons_of_neg hx, List.find?_cons_of_neg (hxy ▸ hx), map_find?_congr hp h.2]

theorem any_congr (hp : ∀ x y, f x = f y → p x = p y) : ∀ {xs ys : List α},
    xs.map f = ys.map f → xs.any p = ys.any p
  | [], [], _ => rfl
  | [], _ :: _, h => by cases h
  | _ :: _, [], h => by cases h
  | x :: xs, y :: ys, h => by
    rw [List.map_cons, List.map_cons, List.cons.injEq] at h
    rw [List.any_cons, List.any_cons, hp x y h.1, any_congr hp h.2]

theorem map_alterFirst_congr (hp : ∀ x y, f x = f y → p x = p y)
    (hg : ∀ x y, p x = true → p y = true → f x = f y → f (g x) = f (g y)) : ∀ {xs ys : List α},
    xs.map f = ys.map f → (alterFirst p g xs).map f = (alterFirst p g ys).map f
  | [], [], _ => rfl
  | [], _ :: _, h => by cases h
  | _ :: _, [], h => by cases h
  | x :: xs, y :: ys, h => by
    rw [List.map_cons, List.map_cons, List.cons.injEq] at h
    have hxy := hp x y h.1
    rw [alterFirst, alterFirst, ← hxy]
    by_cases hx : p x = true
    · rw [if_pos hx, if_pos hx, List.map_cons, List.map_cons, h.2, hg x y hx (hxy ▸ hx) h.1]
    · rw [if_neg hx, if_neg hx, List.map_cons, List.map_cons, h.1, map_alterFirst_congr hp hg h.2]

/-- **Lists that look alike stay so** when something is put into both. -/
theorem map_putFirst_congr (hp : ∀ x y, f x = f y → p x = p y)
    (hg : ∀ x y, p x = true → p y = true → f x = f y → f (g x) = f (g y)) {xs ys : List α}
    (h : xs.map f = ys.map f) : (putFirst p g n xs).map f = (putFirst p g n ys).map f := by
  have hany := any_congr hp h
  by_cases hx : xs.any p = true
  · rw [putFirst_of_any hx, putFirst_of_any (hany ▸ hx), map_alterFirst_congr hp hg h]
  · have hx := Bool.eq_false_iff.2 hx
    rw [putFirst_of_not_any hx, putFirst_of_not_any (hany ▸ hx), List.map_append, List.map_append, h]

/-- A change that cannot be seen. -/
theorem map_alterFirst_of_find? : ∀ {xs : List α}, (∀ x, xs.find? p = some x → f (g x) = f x) →
    (alterFirst p g xs).map f = xs.map f
  | [], _ => rfl
  | x :: xs, h => by
    rw [alterFirst]
    by_cases hx : p x = true
    · rw [if_pos hx, List.map_cons, List.map_cons, h x (List.find?_cons_of_pos hx)]
    · rw [if_neg hx, List.map_cons, List.map_cons, map_alterFirst_of_find? fun y hy =>
        h y (by rw [List.find?_cons_of_neg hx, hy])]

/-- Members that look alike in two ways, one by one. -/
theorem forall₂_of_map_eq {h : α → γ} {R : α → α → Prop} (hR : ∀ x y, f x = f y → h x = h y → R x y) :
    ∀ {xs ys : List α}, xs.map f = ys.map f → xs.map h = ys.map h → List.Forall₂ R xs ys
  | [], [], _, _ => .nil
  | [], _ :: _, h, _ => by cases h
  | _ :: _, [], h, _ => by cases h
  | x :: xs, y :: ys, hf, hh => by
    rw [List.map_cons, List.map_cons, List.cons.injEq] at hf hh
    exact .cons (hR x y hf.1 hh.1) (forall₂_of_map_eq hR hf.2 hh.2)

theorem forall₂_alterFirst {R : α → α → Prop} (hR : ∀ x, R x x) : ∀ {xs : List α},
    (∀ x, xs.find? p = some x → R x (g x)) → List.Forall₂ R xs (alterFirst p g xs)
  | [], _ => .nil
  | x :: xs, h => by
    rw [alterFirst]
    by_cases hx : p x = true
    · rw [if_pos hx]
      exact .cons (h x (List.find?_cons_of_pos hx)) (List.forall₂_same.2 fun y _ => hR y)
    · rw [if_neg hx]
      exact .cons (hR x) (forall₂_alterFirst hR fun y hy => h y (by rw [List.find?_cons_of_neg hx, hy]))

end ApiRoutes
