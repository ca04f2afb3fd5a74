import Mathlib.Data.List.Forall2
/-!
# The first match in a list

Changing the first member of a list that satisfies a predicate (`alterFirst`), and putting a member
before it (`insertFirst`): what the two do to the other searches and counts, and to a list that is
woven from two others (`Weave`).  Changes for several items, one after the other, come down to one
change of the list (`foldl_putFirst`).
-/
namespace ApiRoutes

variable {α : Type}

/-! ## Changing the first match -/

/-- Changes the first member that satisfies `p`. -/
def alterFirst (p : α → Bool) (g : α → α) : List α → List α
  | [] => []
  | x :: xs => if p x then g x :: xs else x :: alterFirst p g xs

theorem modify_findIdx? {p : α → Bool} (g : α → α) :
    ∀ {xs : List α} {i : Nat}, xs.findIdx? p = some i → xs.modify i g = alterFirst p g xs
  | [], i, h => by cases h
  | x :: xs, i, h => by
    rw [List.findIdx?_cons] at h
    by_cases hx : p x = true
    · rw [if_pos hx] at h
      cases h
      rw [alterFirst, if_pos hx, List.modify_zero_cons]
    · rw [if_neg hx] at h
      obtain ⟨j, hj, rfl⟩ := Option.map_eq_some_iff.1 h
      rw [alterFirst, if_neg hx, List.modify_succ_cons, modify_findIdx? g hj]

theorem not_any_of_findIdx? {p : α → Bool} {xs : List α} (h : xs.findIdx? p = none) :
    xs.any p = false := by
  rw [← List.findIdx?_isSome, h]; rfl

theorem findIdx?_of_not_any {p : α → Bool} {xs : List α} (h : xs.any p = false) :
    xs.findIdx? p = none := by
  rw [List.findIdx?_eq_none_iff]
  simpa using h

theorem any_of_findIdx? {p : α → Bool} {xs : List α} {i : Nat} (h : xs.findIdx? p = some i) :
    xs.any p = true := by
  rw [← List.findIdx?_isSome, h]; rfl

theorem any_of_find? {p : α → Bool} {xs : List α} {x : α} (h : xs.find? p = some x) :
    xs.any p = true :=
  List.any_eq_true.2 ⟨x, List.mem_of_find?_eq_some h, List.find?_some h⟩

theorem exists_find?_of_any {p : α → Bool} {xs : List α} (h : xs.any p = true) :
    ∃ x, xs.find? p = some x :=
  Option.isSome_iff_exists.1 (List.find?_isSome.2 (List.any_eq_true.1 h))

theorem exists_findIdx?_of_any {p : α → Bool} {xs : List α} (h : xs.any p = true) :
    ∃ i, xs.findIdx? p = some i :=
  Option.isSome_iff_exists.1 (List.findIdx?_isSome.trans h)

theorem find?_of_not_any {p : α → Bool} {xs : List α} (h : xs.any p = false) : xs.find? p = none :=
  List.find?_eq_none.2 (List.any_eq_false.1 h)

theorem getElem?_of_findIdx? {p : α → Bool} :
    ∀ {xs : List α} {i : Nat}, xs.findIdx? p = some i → xs[i]? = xs.find? p
  | [], i, h => by cases h
  | x :: xs, i, h => by
    rw [List.findIdx?_cons] at h
    by_cases hx : p x = true
    · rw [if_pos hx] at h
      cases h
      rw [List.find?_cons_of_pos hx, List.getElem?_cons_zero]
    · rw [if_neg hx] at h
      obtain ⟨j, hj, rfl⟩ := Option.map_eq_some_iff.1 h
      rw [List.find?_cons_of_neg hx, List.getElem?_cons_succ, getElem?_of_findIdx? hj]

theorem alterFirst_of_not_any {p : α → Bool} {g : α → α} :
    ∀ {xs : List α}, xs.any p = false → alterFirst p g xs = xs
  | [], _ => rfl
  | x :: xs, h => by
    rw [List.any_cons, Bool.or_eq_false_iff] at h
    rw [alterFirst, if_neg (by simp [h.1]), alterFirst_of_not_any h.2]

theorem length_alterFirst (p : α → Bool) (g : α → α) :
    ∀ xs : List α, (alterFirst p g xs).length = xs.length
  | [] => rfl
  | x :: xs => by
    rw [alterFirst]
    split
    · rfl
    · rw [List.length_cons, List.length_cons, length_alterFirst p g xs]

/-- **The first match is what was changed.** -/
theorem find?_alterFirst {p : α → Bool} {g : α → α} (hg : ∀ x, p x = true → p (g x) = true) :
    ∀ xs : List α, (alterFirst p g xs).find? p = (xs.find? p).map g
  | [] => rfl
  | x :: xs => by
    rw [alterFirst]
    by_cases hx : p x = true
    · rw [if_pos hx, List.find?_cons_of_pos (hg x hx), List.find?_cons_of_pos hx]; rfl
    · rw [if_neg hx, List.find?_cons_of_neg hx, List.find?_cons_of_neg hx, find?_alterFirst hg xs]

theorem filter_alterFirst_of_disjoint {p q : α → Bool} {g : α → α}
    (hq : ∀ x, p x = true → q x = false) (hg : ∀ x, p x = true → q (g x) = false) :
    ∀ xs : List α, (alterFirst p g xs).filter q = xs.filter q
  | [] => rfl
  | x :: xs => by
    rw [alterFirst]
    by_cases hx : p x = true
    · rw [if_pos hx, List.filter_cons_of_neg (by simp [hg x hx]), List.filter_cons_of_neg (by simp [hq x hx])]
    · rw [if_neg hx, List.filter_cons, List.filter_cons, filter_alterFirst_of_disjoint hq hg xs]

theorem find?_alterFirst_of_disjoint {p q : α → Bool} {g : α → α}
    (hq : ∀ x, p x = true → q x = false) (hg : ∀ x, p x = true → q (g x) = false) (xs : List α) :
    (alterFirst p g xs).find? q = xs.find? q := by
  rw [← List.head?_filter, filter_alterFirst_of_disjoint hq hg, List.head?_filter]

theorem map_alterFirst {β : Type} {p : α → Bool} {g : α → α} {f : α → β}
    (hf : ∀ x, p x = true → f (g x) = f x) : ∀ xs : List α, (alterFirst p g xs).map f = xs.map f
  | [] => rfl
  | x :: xs => by
    rw [alterFirst]
    split
    · rename_i hx; rw [List.map_cons, List.map_cons, hf x hx]
    · rw [List.map_cons, List.map_cons, map_alterFirst hf xs]

theorem countP_eq_of_map_eq {q : α → Bool} {xs ys : List α} (h : xs.map q = ys.map q) :
    xs.countP q = ys.countP q := by
  have hc : ∀ zs : List α, zs.countP q = (zs.map q).countP id := fun zs => by
    rw [List.countP_map]; rfl
  rw [hc, hc, h]

theorem findIdx?_eq_of_map_eq {q : α → Bool} {xs ys : List α} (h : xs.map q = ys.map q) :
    xs.findIdx? q = ys.findIdx? q := by
  have hc : ∀ zs : List α, zs.findIdx? q = (zs.map q).findIdx? id := fun zs => by
    rw [List.findIdx?_map]; rfl
  rw [hc, hc, h]

theorem any_eq_of_map_eq {q : α → Bool} {xs ys : List α} (h : xs.map q = ys.map q) :
    xs.any q = ys.any q := by
  have hc : ∀ zs : List α, zs.any q = (zs.map q).any id := fun zs => by
    rw [List.any_map]; rfl
  rw [hc, hc, h]

theorem alterFirst_alterFirst {p : α → Bool} {g h : α → α} (hp : ∀ x, p x = true → p (h x) = true) :
    ∀ xs : List α, alterFirst p g (alterFirst p h xs) = alterFirst p (g ∘ h) xs
  | [] => rfl
  | x :: xs => by
    rw [alterFirst, alterFirst]
    by_cases hx : p x = true
    · rw [if_pos hx, if_pos hx, alterFirst, if_pos (hp x hx)]; rfl
    · rw [if_neg hx, if_neg hx, alterFirst, if_neg hx, alterFirst_alterFirst hp xs]

/-- Only what becomes of the first match counts. -/
theorem alterFirst_congr {p : α → Bool} {g h : α → α} :
    ∀ {xs : List α}, (∀ x, xs.find? p = some x → g x = h x) → alterFirst p g xs = alterFirst p h xs
  | [], _ => rfl
  | x :: xs, hgh => by
    rw [alterFirst, alterFirst]
    by_cases hx : p x = true
    · rw [if_pos hx, if_pos hx, hgh x (List.find?_cons_of_pos hx)]
    · rw [if_neg hx, if_neg hx,
        alterFirst_congr fun y hy => hgh y (by rw [List.find?_cons_of_neg hx, hy])]

theorem alterFirst_append_of_any {p : α → Bool} {g : α → α} {ys : List α} :
    ∀ {xs : List α}, xs.any p = true → alterFirst p g (xs ++ ys) = alterFirst p g xs ++ ys
  | x :: xs, h => by
    rw [List.cons_append, alterFirst, alterFirst]
    by_cases hx : p x = true
    · rw [if_pos hx, if_pos hx, List.cons_append]
    · rw [List.any_cons, Bool.eq_false_iff.2 hx, Bool.false_or] at h
      rw [if_neg hx, if_neg hx, alterFirst_append_of_any h, List.cons_append]

theorem alterFirst_append_of_not_any {p : α → Bool} {g : α → α} {ys : List α} :
    ∀ {xs : List α}, xs.any p = false → alterFirst p g (xs ++ ys) = xs ++ alterFirst p g ys
  | [], _ => rfl
  | x :: xs, h => by
    rw [List.any_cons, Bool.or_eq_false_iff] at h
    rw [List.cons_append, alterFirst, if_neg (by simp [h.1]), alterFirst_append_of_not_any h.2,
      List.cons_append]

theorem alterFirst_comm {p q : α → Bool} {g h : α → α} (hpq : ∀ x, p x = true → q x = false)
    (hp : ∀ x, q x = true → p (h x) = false) (hq : ∀ x, p x = true → q (g x) = false) :
    ∀ xs : List α, alterFirst p g (alterFirst q h xs) = alterFirst q h (alterFirst p g xs)
  | [] => rfl
  | x :: xs => by
    have ih := alterFirst_comm hpq hp hq xs
    rw [alterFirst, alterFirst.eq_2 p]
    by_cases hx : p x = true
    · rw [if_neg (by simp [hpq x hx]), if_pos hx, alterFirst, if_pos hx, alterFirst,
        if_neg (by simp [hq x hx])]
    · rw [if_neg hx, alterFirst.eq_2 q]
      by_cases hx' : q x = true
      · rw [if_pos hx', if_pos hx', alterFirst, if_neg (by simp [hp x hx'])]
      · rw [if_neg hx', if_neg hx', alterFirst, if_neg hx, ih]

theorem eraseP_alterFirst {p : α → Bool} {g : α → α} (hg : ∀ x, p x = true → p (g x) = true) :
    ∀ xs : List α, (alterFirst p g xs).eraseP p = xs.eraseP p
  | [] => rfl
  | x :: xs => by
    rw [alterFirst]
    by_cases hx : p x = true
    · rw [if_pos hx, List.eraseP_cons_of_pos (hg x hx), List.eraseP_cons_of_pos hx]
    · rw [if_neg hx, List.eraseP_cons_of_neg hx, List.eraseP_cons_of_neg hx, eraseP_alterFirst hg xs]

theorem alterFirst_id {p : α → Bool} : ∀ xs : List α, alterFirst p id xs = xs
  | [] => rfl
  | x :: xs => by
    rw [alterFirst, alterFirst_id xs]
    split <;> rfl

theorem alterFirst_of_find? {p : α → Bool} {g : α → α} {xs : List α} {n : α}
    (hn : xs.find? p = some n) (hg : g n = n) : alterFirst p g xs = xs := by
  conv => rhs; rw [← alterFirst_id (p := p) xs]
  refine alterFirst_congr fun x hx => ?_
  rw [hn, Option.some.injEq] at hx
  rw [← hx]
  exact hg

theorem mem_alterFirst {p : α → Bool} {g : α → α} {y : α} :
    ∀ {xs : List α}, y ∈ alterFirst p g xs → ∃ x ∈ xs, y = x ∨ p x = true ∧ y = g x
  | x :: xs, h => by
    rw [alterFirst] at h
    split at h
    · rename_i hx
      rcases List.mem_cons.1 h with rfl | h
      · exact ⟨x, List.mem_cons_self, .inr ⟨hx, rfl⟩⟩
      · exact ⟨y, List.mem_cons_of_mem _ h, .inl rfl⟩
    · rcases List.mem_cons.1 h with rfl | h
      · exact ⟨y, List.mem_cons_self, .inl rfl⟩
      · obtain ⟨z, hz, hy⟩ := mem_alterFirst h
        exact ⟨z, List.mem_cons_of_mem _ hz, hy⟩

theorem getElem?_alterFirst {p : α → Bool} {g : α → α} :
    ∀ (xs : List α) (i : Nat), (alterFirst p g xs)[i]? =
      if xs.findIdx? p = some i then xs[i]?.map g else xs[i]?
  | [], i => by rw [alterFirst, List.getElem?_nil]; split <;> rfl
  | x :: xs, i => by
    rw [alterFirst, List.findIdx?_cons]
    by_cases hx : p x = true
    · rw [if_pos hx, if_pos hx]
      cases i with
      | zero => rw [if_pos rfl, List.getElem?_cons_zero, List.getElem?_cons_zero]; rfl
      | succ i => rw [if_neg (by simp), List.getElem?_cons_succ, List.getElem?_cons_succ]
    · rw [if_neg hx, if_neg hx]
      cases i with
      | zero => rw [List.getElem?_cons_zero, List.getElem?_cons_zero, if_neg (by simp)]
      | succ i =>
        rw [List.getElem?_cons_succ, List.getElem?_cons_succ, getElem?_alterFirst xs i]
        simp

/-- A list related member by member to another one stays so when a first match is changed and stays related. -/
theorem forall₂_alterFirst_right {R : α → α → Prop} {p : α → Bool} {g : α → α} {xs ys : List α}
    (hg : ∀ x y, R x y → p y = true → R x (g y)) (h : List.Forall₂ R xs ys) :
    List.Forall₂ R xs (alterFirst p g ys) := by
  induction h with
  | nil => exact .nil
  | @cons x y xs ys hxy _ ih =>
    rw [alterFirst]
    split
    · rename_i hy
      exact .cons (hg x y hxy hy) ‹_›
    · exact .cons hxy ih

/-! ## Changing the first match or adding one -/

/-- Changes the first member that satisfies `p`; where there is none, `n` comes at the end. -/
def putFirst (p : α → Bool) (g : α → α) (n : α) (xs : List α) : List α :=
  if xs.any p then alterFirst p g xs else xs ++ [n]

theorem putFirst_of_any {p : α → Bool} {g : α → α} {n : α} {xs : List α} (h : xs.any p = true) :
    putFirst p g n xs = alterFirst p g xs := if_pos h

theorem putFirst_of_not_any {p : α → Bool} {g : α → α} {n : α} {xs : List α}
    (h : xs.any p = false) : putFirst p g n xs = xs ++ [n] := if_neg (by simp [h])

theorem modify_or_append (p : α → Bool) (g : α → α) (n : α) (xs : List α) :
    (match xs.findIdx? p with
      | none => xs ++ [n]
      | some i => xs.modify i g) = putFirst p g n xs := by
  cases hi : xs.findIdx? p with
  | none => rw [putFirst_of_not_any (not_any_of_findIdx? hi)]
  | some i =>
    rw [putFirst_of_any (any_of_findIdx? hi)]
    exact modify_findIdx? g hi

theorem any_alterFirst {p q : α → Bool} {g : α → α} (hg : ∀ x, p x = true → q (g x) = q x)
    (xs : List α) : (alterFirst p g xs).any q = xs.any q :=
  any_eq_of_map_eq (map_alterFirst hg xs)

/-- **The first match is what was put there.** -/
theorem find?_putFirst {p : α → Bool} {g : α → α} {n : α} (hg : ∀ x, p x = true → p (g x) = true)
    (hn : p n = true) (xs : List α) :
    (putFirst p g n xs).find? p = some (((xs.find? p).map g).getD n) := by
  by_cases h : xs.any p = true
  · obtain ⟨x, hx⟩ := exists_find?_of_any h
    rw [putFirst_of_any h, find?_alterFirst hg, hx]
    rfl
  · have h := Bool.eq_false_iff.2 h
    have hx := find?_of_not_any h
    rw [putFirst_of_not_any h, List.find?_append, hx, List.find?_cons_of_pos hn]
    rfl

theorem find?_putFirst_of_disjoint {p q : α → Bool} {g : α → α} {n : α}
    (hq : ∀ x, p x = true → q x = false) (hg : ∀ x, p x = true → q (g x) = false)
    (hn : q n = false) (xs : List α) : (putFirst p g n xs).find? q = xs.find? q := by
  unfold putFirst
  split
  · exact find?_alterFirst_of_disjoint hq hg xs
  · rw [List.find?_append, List.find?_cons_of_neg (by simp [hn]), List.find?_nil, Option.or_none]

theorem any_putFirst {p : α → Bool} {g : α → α} {n : α} (hg : ∀ x, p x = true → p (g x) = true)
    (hn : p n = true) (xs : List α) : (putFirst p g n xs).any p = true := by
  rw [List.any_eq_true]
  have h := find?_putFirst hg hn xs
  exact ⟨_, List.mem_of_find?_eq_some h, List.find?_some h⟩

theorem alterFirst_putFirst {p : α → Bool} {g h : α → α} {m : α}
    (hp : ∀ x, p x = true → p (h x) = true) (hm : p m = true) (xs : List α) :
    alterFirst p g (putFirst p h m xs) = putFirst p (g ∘ h) (g m) xs := by
  by_cases ha : xs.any p = true
  · rw [putFirst_of_any ha, putFirst_of_any ha, alterFirst_alterFirst hp]
  · have ha := Bool.eq_false_iff.2 ha
    rw [putFirst_of_not_any ha, putFirst_of_not_any ha, alterFirst_append_of_not_any ha, alterFirst,
      if_pos hm]

theorem putFirst_putFirst {p : α → Bool} {g h : α → α} {n m : α}
    (hp : ∀ x, p x = true → p (h x) = true) (hm : p m = true) (hg : ∀ x, p x = true → g (h x) = g x)
    (hn : g m = n) (xs : List α) : putFirst p g n (putFirst p h m xs) = putFirst p g n xs := by
  rw [putFirst_of_any (any_putFirst hp hm xs), alterFirst_putFirst hp hm, hn, putFirst, putFirst]
  split
  · exact alterFirst_congr fun x hx => hg x (List.find?_some hx)
  · rfl

/-- A change of a match that is there can be made before or after another change. -/
theorem putFirst_comm {p q : α → Bool} {g h : α → α} {n m : α} {xs : List α}
    (hpq : ∀ x, p x = true → q x = false) (hp : ∀ x, q x = true → p (h x) = false)
    (hq : ∀ x, p x = true → q (g x) = false) (hx : xs.any p = true) :
    putFirst p g n (putFirst q h m xs) = putFirst q h m (putFirst p g n xs) := by
  have hqp : ∀ x, q x = true → p x = false := fun x hx => by
    rw [Bool.eq_false_iff]
    intro hx'
    rw [hpq x hx'] at hx
    cases hx
  have hany : (alterFirst p g xs).any q = xs.any q :=
    any_alterFirst (fun x hx => by rw [hq x hx, hpq x hx]) xs
  rw [putFirst_of_any hx]
  by_cases ha : xs.any q = true
  · rw [putFirst_of_any ha, putFirst_of_any (hany.trans ha), putFirst_of_any]
    · exact alterFirst_comm hpq hp hq xs
    · rw [any_alterFirst fun x hx => by rw [hp x hx, hqp x hx], hx]
  · have ha := Bool.eq_false_iff.2 ha
    rw [putFirst_of_not_any ha, putFirst_of_not_any (hany.trans ha), putFirst_of_any (by simp [hx]),
      alterFirst_append_of_any hx]

/-! ## Members before the first match -/

/-- Puts `n` before the first member that satisfies `p`, or at the end. -/
def insertFirst (p : α → Bool) (n : α) : List α → List α
  | [] => [n]
  | x :: xs => if p x then n :: x :: xs else x :: insertFirst p n xs

theorem insertFirst_of_findIdx? {p : α → Bool} (n : α) :
    ∀ {xs : List α} {i : Nat}, xs.findIdx? p = some i → xs.insertIdx i n = insertFirst p n xs
  | [], i, h => by cases h
  | x :: xs, i, h => by
    rw [List.findIdx?_cons] at h
    by_cases hx : p x = true
    · rw [if_pos hx] at h
      cases h
      rw [insertFirst, if_pos hx, List.insertIdx_zero]
    · rw [if_neg hx] at h
      obtain ⟨j, hj, rfl⟩ := Option.map_eq_some_iff.1 h
      rw [insertFirst, if_neg hx, List.insertIdx_succ_cons, insertFirst_of_findIdx? n hj]

theorem insertFirst_of_not_any {p : α → Bool} (n : α) :
    ∀ {xs : List α}, xs.any p = false → insertFirst p n xs = xs ++ [n]
  | [], _ => rfl
  | x :: xs, h => by
    rw [List.any_cons, Bool.or_eq_false_iff] at h
    rw [insertFirst, if_neg (by simp [h.1]), insertFirst_of_not_any n h.2, List.cons_append]

theorem insertFirst_eq (p : α → Bool) (n : α) : ∀ xs : List α,
    ∃ pre post, xs = pre ++ post ∧ insertFirst p n xs = pre ++ n :: post ∧ pre.any p = false
  | [] => ⟨[], [], rfl, rfl, rfl⟩
  | x :: xs => by
    by_cases hx : p x = true
    · exact ⟨[], x :: xs, rfl, by rw [insertFirst, if_pos hx]; rfl, rfl⟩
    · obtain ⟨pre, post, rfl, h2, h3⟩ := insertFirst_eq p n xs
      refine ⟨x :: pre, post, rfl, by rw [insertFirst, if_neg hx, h2]; rfl, ?_⟩
      rw [List.any_cons, h3, Bool.or_false, Bool.eq_false_iff]
      exact hx

theorem findIdx?_insert {p : α → Bool} {n : α} (hn : p n = false) (post : List α) :
    ∀ pre : List α, (pre ++ n :: post).findIdx? p =
      ((pre ++ post).findIdx? p).map fun i => if i < pre.length then i else i + 1
  | [] => by
    rw [List.nil_append, List.nil_append, List.findIdx?_cons, if_neg (by simp [hn])]
    rfl
  | x :: pre => by
    rw [List.cons_append, List.cons_append, List.findIdx?_cons, List.findIdx?_cons]
    by_cases hx : p x = true
    · rw [if_pos hx, if_pos hx]; rfl
    · rw [if_neg hx, if_neg hx, findIdx?_insert hn post pre, Option.map_map, Option.map_map]
      congr 1
      funext i
      simp only [Function.comp_apply, List.length_cons, Nat.add_lt_add_iff_right]
      split <;> rfl

theorem length_le_of_findIdx? {p : α → Bool} {pre post : List α} {i : Nat}
    (h : pre.any p = false) (hi : (pre ++ post).findIdx? p = some i) : pre.length ≤ i := by
  rw [List.findIdx?_append, findIdx?_of_not_any h, Option.none_or] at hi
  obtain ⟨j, -, rfl⟩ := Option.map_eq_some_iff.1 hi
  exact Nat.le_add_left _ _

theorem findIdx?_insert_self {p : α → Bool} {n : α} {pre : List α} (post : List α)
    (hn : p n = true) (h : pre.any p = false) :
    (pre ++ n :: post).findIdx? p = some pre.length := by
  rw [List.findIdx?_append, findIdx?_of_not_any h, List.findIdx?_cons, if_pos hn]
  simp

theorem lt_length_of_findIdx? {p : α → Bool} {xs : List α} {i : Nat} (h : xs.findIdx? p = some i) :
    i < xs.length := (List.findIdx?_eq_some_iff_getElem.1 h).1

/-! ## Woven lists -/

/-- The third list is woven from the first two: it has the members of both, those of each in their
order. -/
inductive Weave : List α → List α → List α → Prop
  | nil : Weave [] [] []
  | left {x : α} {xs ys zs : List α} : Weave xs ys zs → Weave (x :: xs) ys (x :: zs)
  | right {y : α} {xs ys zs : List α} : Weave xs ys zs → Weave xs (y :: ys) (y :: zs)

namespace Weave

variable {xs ys zs : List α}

theorem refl : ∀ xs : List α, Weave xs [] xs
  | [] => .nil
  | _ :: xs => .left (refl xs)

theorem any (p : α → Bool) (h : Weave xs ys zs) : zs.any p = (xs.any p || ys.any p) := by
  induction h with
  | nil => rfl
  | left h ih => rw [List.any_cons, List.any_cons, ih, Bool.or_assoc]
  | right h ih => rw [List.any_cons, List.any_cons, ih, Bool.or_left_comm]

/-- Where the second of two lists has no match, the first match of the list woven from them is that of the first. -/
theorem find? {p : α → Bool} (h : Weave xs ys zs) (none : ys.any p = false) : zs.find? p = xs.find? p := by
  induction h with
  | nil => rfl
  | left h ih => rw [List.find?_cons, List.find?_cons, ih none]
  | right h ih =>
    rw [List.any_cons, Bool.or_eq_false_iff] at none
    rw [List.find?_cons, none.1, ih none.2]

/-- A member put anywhere into a woven list is woven into its second part. -/
theorem insert (n : α) : ∀ {pre post xs ys : List α}, Weave xs ys (pre ++ post) →
    ∃ ys₁ ys₂, ys = ys₁ ++ ys₂ ∧ Weave xs (ys₁ ++ n :: ys₂) (pre ++ n :: post)
  | [], _, _, ys, h => ⟨[], ys, rfl, .right h⟩
  | _ :: _, _, _, _, .left h => by
    obtain ⟨ys₁, ys₂, hy, hw⟩ := insert n h
    exact ⟨ys₁, ys₂, hy, .left hw⟩
  | _ :: _, _, _, _, .right h => by
    obtain ⟨ys₁, ys₂, rfl, hw⟩ := insert n h
    exact ⟨_ :: ys₁, ys₂, rfl, .right hw⟩

/-- Where only one of two lists has a match, the first match of the list woven from them is its. -/
theorem alterFirst {p : α → Bool} {g : α → α} (h : Weave xs ys zs)
    (one : xs.any p = true → ys.any p = false) :
    Weave (alterFirst p g xs) (alterFirst p g ys) (alterFirst p g zs) := by
  induction h with
  | nil => exact .nil
  | @left x xs ys zs h ih =>
    rw [ApiRoutes.alterFirst.eq_2, ApiRoutes.alterFirst.eq_2]
    by_cases hx : p x = true
    · rw [if_pos hx, if_pos hx, alterFirst_of_not_any (one (by simp [hx]))]
      exact .left h
    · rw [if_neg hx, if_neg hx]
      exact .left (ih fun hxs => one (by simp [hxs]))
  | @right y xs ys zs h ih =>
    rw [ApiRoutes.alterFirst.eq_2, ApiRoutes.alterFirst.eq_2]
    by_cases hy : p y = true
    · have hxs : xs.any p = false := by
        rw [Bool.eq_false_iff]
        intro hxs
        have := one hxs
        simp [hy] at this
      rw [if_pos hy, if_pos hy, alterFirst_of_not_any hxs]
      exact .right h
    · rw [if_neg hy, if_neg hy]
      refine .right (ih fun hxs => ?_)
      have := one hxs
      rw [List.any_cons, Bool.or_eq_false_iff] at this
      exact this.2

end Weave

/-! ## Changing or adding one for each of several items -/

/-- Every item changes the first member that satisfies its predicate. -/
def alterEach {β : Type} (p : β → α → Bool) (g : β → α → α) (xs : List β) (ys : List α) : List α :=
  ys.mapIdx fun i y => match xs.find? fun x => ys.findIdx? (p x) == some i with
    | some x => g x y
    | none => y

/-- Every item changes the first member that satisfies its predicate; the new members of the items without one
come at the end, in their order. -/
def putEach {β : Type} (p : β → α → Bool) (g : β → α → α) (n : β → α) (xs : List β) (ys : List α) : List α :=
  alterEach p g xs ys ++ (xs.filter fun x => !ys.any (p x)).map n

section EachFirst

variable {β : Type} {p : β → α → Bool} {g : β → α → α} {n : β → α}

theorem length_alterEach (xs : List β) (ys : List α) : (alterEach p g xs ys).length = ys.length :=
  List.length_mapIdx

theorem putEach_nil (xs : List β) : putEach p g n xs [] = xs.map n := by
  simp [putEach, alterEach]

theorem getElem?_alterEach (xs : List β) (ys : List α) (i : Nat) :
    (alterEach p g xs ys)[i]? = ys[i]?.map fun y =>
      match xs.find? fun x => ys.findIdx? (p x) == some i with
        | some x => g x y
        | none => y :=
  List.getElem?_mapIdx

theorem find?_position_congr {xs : List β} {ys zs : List α} (h : ∀ x ∈ xs, zs.findIdx? (p x) = ys.findIdx? (p x))
    (i : Nat) : (xs.find? fun x => zs.findIdx? (p x) == some i) = xs.find? fun x => ys.findIdx? (p x) == some i := by
  induction xs with
  | nil => rfl
  | cons x xs ih =>
    rw [List.find?_cons, List.find?_cons, h x List.mem_cons_self, ih fun y hy => h y (List.mem_cons_of_mem x hy)]

theorem alterEach_cons_of_any {x : β} {xs : List β} {ys : List α} (hg : ∀ y, p x y = true → p x (g x y) = true)
    (hd : ∀ z ∈ xs, ∀ y, p x y = true → p z y = false) :
    alterEach p g (x :: xs) ys = alterEach p g xs (alterFirst (p x) (g x) ys) := by
  have hsame : ∀ z ∈ xs, (alterFirst (p x) (g x) ys).findIdx? (p z) = ys.findIdx? (p z) := fun z hz =>
    findIdx?_eq_of_map_eq (map_alterFirst (fun y hy => by rw [hd z hz y hy, hd z hz _ (hg y hy)]) ys)
  refine List.ext_getElem? fun i => ?_
  rw [getElem?_alterEach, getElem?_alterEach, find?_position_congr hsame, getElem?_alterFirst, List.find?_cons]
  by_cases hi : ys.findIdx? (p x) = some i
  · -- No other item has its first match at the place of this one.
    have hnone : (xs.find? fun z => ys.findIdx? (p z) == some i) = none := by
      refine List.find?_eq_none.2 fun z hz hzi => ?_
      obtain ⟨y, hy⟩ := exists_find?_of_any (any_of_findIdx? hi)
      have hyz := getElem?_of_findIdx? (eq_of_beq hzi)
      rw [getElem?_of_findIdx? hi, hy] at hyz
      have hpz := List.find?_some hyz.symm
      rw [hd z hz y (List.find?_some hy)] at hpz
      cases hpz
    rw [if_pos hi, hnone, hi, beq_self_eq_true]
    cases ys[i]? <;> rfl
  · rw [if_neg hi, beq_false_of_ne hi]

theorem alterEach_append {xs : List β} {ys : List α} {a : α} (ha : ∀ x ∈ xs, p x a = false) :
    alterEach p g xs (ys ++ [a]) = alterEach p g xs ys ++ [a] := by
  have hsame : ∀ x ∈ xs, (ys ++ [a]).findIdx? (p x) = ys.findIdx? (p x) := fun x hx => by
    rw [List.findIdx?_append, List.findIdx?_singleton, ha x hx]
    cases ys.findIdx? (p x) <;> rfl
  refine List.ext_getElem? fun i => ?_
  rw [getElem?_alterEach, find?_position_congr hsame, List.getElem?_append, List.getElem?_append, length_alterEach,
    getElem?_alterEach]
  by_cases hi : i < ys.length
  · rw [if_pos hi, if_pos hi]
  · have hnone : (xs.find? fun x => ys.findIdx? (p x) == some i) = none :=
      List.find?_eq_none.2 fun x _ hxi => hi (lt_length_of_findIdx? (eq_of_beq hxi))
    rw [if_neg hi, if_neg hi, hnone, Option.map_id']

/-- **Changes and additions one after the other**, where no member is that of two items. -/
theorem foldl_putFirst {xs : List β} {ys : List α} (hg : ∀ x ∈ xs, ∀ y, p x y = true → p x (g x y) = true)
    (hn : ∀ x ∈ xs, p x (n x) = true) (hd : xs.Pairwise fun x z => ∀ y, p x y = true → p z y = false) :
    xs.foldl (fun ys x => putFirst (p x) (g x) (n x) ys) ys = putEach p g n xs ys := by
  induction xs generalizing ys with
  | nil =>
    refine Eq.symm ((List.append_nil _).trans (List.ext_getElem? fun i => ?_))
    rw [getElem?_alterEach]
    exact Option.map_id'
  | cons x xs ih =>
    obtain ⟨hdx, hd⟩ := List.pairwise_cons.1 hd
    have hgx := hg x List.mem_cons_self
    have ih := @ih (putFirst (p x) (g x) (n x) ys) (fun z hz => hg z (List.mem_cons_of_mem x hz))
      (fun z hz => hn z (List.mem_cons_of_mem x hz)) hd
    rw [List.foldl_cons, ih, putEach, putEach]
    by_cases hx : ys.any (p x) = true
    · have hany : ∀ z ∈ xs, (alterFirst (p x) (g x) ys).any (p z) = ys.any (p z) := fun z hz =>
        any_alterFirst (fun y hy => by rw [hdx z hz y hy, hdx z hz _ (hgx y hy)]) ys
      rw [putFirst_of_any hx, ← alterEach_cons_of_any hgx hdx, List.filter_cons_of_neg (by simp [hx])]
      exact congrArg (_ ++ List.map n ·) (List.filter_congr fun z hz => by rw [hany z hz])
    · have hx := Bool.eq_false_iff.2 hx
      have hnx : ∀ z ∈ xs, p z (n x) = false := fun z hz => hdx z hz _ (hn x List.mem_cons_self)
      have hstay : alterFirst (p x) (g x) ys = ys := alterFirst_of_not_any hx
      rw [putFirst_of_not_any hx, alterEach_append hnx, ← hstay, ← alterEach_cons_of_any hgx hdx, hstay,
        List.filter_cons_of_pos (by simp [hx]), List.map_cons, List.append_assoc, List.singleton_append]
      refine congrArg (_ ++ n x :: List.map n ·) (List.filter_congr fun z hz => ?_)
      rw [List.any_append, List.any_cons, List.any_nil, hnx z hz, Bool.or_false, Bool.or_false]

theorem find?_foldl_putFirst_of_disjoint {q : α → Bool} : ∀ {xs : List β} {ys : List α},
    (∀ x ∈ xs, ∀ y, p x y = true → p x (g x y) = true) → (∀ x ∈ xs, p x (n x) = true) →
      (∀ x ∈ xs, ∀ y, p x y = true → q y = false) →
      (xs.foldl (fun ys x => putFirst (p x) (g x) (n x) ys) ys).find? q = ys.find? q
  | [], _, _, _, _ => rfl
  | x :: xs, ys, hg, hn, hq => by
    have hqx := hq x List.mem_cons_self
    rw [List.foldl_cons, find?_foldl_putFirst_of_disjoint (fun z hz => hg z (List.mem_cons_of_mem x hz))
      (fun z hz => hn z (List.mem_cons_of_mem x hz)) fun z hz => hq z (List.mem_cons_of_mem x hz)]
    exact find?_putFirst_of_disjoint hqx (fun y hy => hqx _ (hg x List.mem_cons_self y hy))
      (hqx _ (hn x List.mem_cons_self)) ys

/-- **The first match of an item** is what the item made of the one before, or its new member. -/
theorem find?_putEach {xs : List β} {ys : List α} (hg : ∀ x ∈ xs, ∀ y, p x y = true → p x (g x y) = true)
    (hn : ∀ x ∈ xs, p x (n x) = true) (hd : xs.Pairwise fun x z => ∀ y, p x y = true → p z y = false) {x : β}
    (hx : x ∈ xs) : (putEach p g n xs ys).find? (p x) = some (((ys.find? (p x)).map (g x)).getD (n x)) := by
  rw [← foldl_putFirst hg hn hd]
  induction xs generalizing ys with
  | nil => cases hx
  | cons z xs ih =>
    obtain ⟨hdz, hd⟩ := List.pairwise_cons.1 hd
    have hgz := hg z List.mem_cons_self
    have hnz := hn z List.mem_cons_self
    replace hg : ∀ x ∈ xs, ∀ y, p x y = true → p x (g x y) = true := fun x hx => hg x (List.mem_cons_of_mem z hx)
    replace hn : ∀ x ∈ xs, p x (n x) = true := fun x hx => hn x (List.mem_cons_of_mem z hx)
    rw [List.foldl_cons]
    rcases List.mem_cons.1 hx with rfl | hx
    · rw [find?_foldl_putFirst_of_disjoint hg hn, find?_putFirst hgz hnz]
      intro z hz y hy
      by_contra hxy
      rw [hdz z hz y (by simpa using hxy)] at hy
      cases hy
    · have hzx := hdz x hx
      rw [ih hg hn hd hx, find?_putFirst_of_disjoint hzx (fun y hy => hzx _ (hgz y hy)) (hzx _ hnz)]

theorem mem_putEach {xs : List β} {ys : List α} {y : α} (h : y ∈ putEach p g n xs ys) :
    y ∈ ys ∨ (∃ x ∈ xs, ∃ z, ys.find? (p x) = some z ∧ y = g x z) ∨ ∃ x ∈ xs, y = n x := by
  rw [putEach, List.mem_append] at h
  rcases h with h | h
  · obtain ⟨i, hi⟩ := List.mem_iff_getElem?.1 h
    rw [getElem?_alterEach] at hi
    obtain ⟨z, hz, hi⟩ := Option.map_eq_some_iff.1 hi
    cases hfind : xs.find? fun x => ys.findIdx? (p x) == some i with
    | none =>
      rw [hfind] at hi
      exact .inl (hi ▸ List.mem_of_getElem? hz)
    | some x =>
      rw [hfind] at hi
      have hat : ys.findIdx? (p x) = some i := by simpa using List.find?_some hfind
      exact .inr (.inl ⟨x, List.mem_of_find?_eq_some hfind, z, (getElem?_of_findIdx? hat).symm.trans hz, hi.symm⟩)
  · obtain ⟨x, hx, rfl⟩ := List.mem_map.1 h
    exact .inr (.inr ⟨x, (List.mem_filter.1 hx).1, rfl⟩)

/-- Changes that are related member by member. -/
theorem forall₂_putEach {R : α → α → Prop} {g' : β → α → α} {xs : List β} {ys : List α} (hR : ∀ y, R y y)
    (hg : ∀ x ∈ xs, ∀ y ∈ ys, R (g x y) (g' x y)) : List.Forall₂ R (putEach p g n xs ys) (putEach p g' n xs ys) := by
  refine List.rel_append ?_ (List.forall₂_same.2 fun y _ => hR y)
  refine List.forall₂_iff_get.2 ⟨by rw [length_alterEach, length_alterEach], fun i hi hi' => ?_⟩
  simp only [List.get_eq_getElem, alterEach, List.getElem_mapIdx]
  cases hfind : xs.find? fun x => ys.findIdx? (p x) == some i with
  | none => exact hR _
  | some x => exact hg x (List.mem_of_find?_eq_some hfind) _ (List.getElem_mem _)

end EachFirst

end ApiRoutes
