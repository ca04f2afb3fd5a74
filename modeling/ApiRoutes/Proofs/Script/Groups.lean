import ApiRoutes.Script.Comments
/-!
# Groups of siblings

How siblings are grouped with the comments among them, from item to item (`groupsFrom_itemGroup`,
`groupsFrom_induction`), and that the groups have all siblings in their order (`groups_flatten`).
-/
namespace ApiRoutes.Script

variable {α : Type} {row : Nat} {ss : List (Sibling α)}

def Sibling.content : Sibling α → PlacedComment ⊕ α
  | .comment c => .inl c
  | .item _ _ a => .inr a

/-! ## Comments between items -/

theorem splitRun_append (row : Nat) (cs : List PlacedComment) : (splitRun row cs).1 ++ (splitRun row cs).2 = cs := by
  fun_induction splitRun row cs with
  | case1 => rfl
  | case2 row c rest h run others hrun ih =>
    rw [hrun] at ih
    simpa using ih
  | case3 => rfl

theorem endRow_append (ended : Option Nat) (cs : List PlacedComment) (c : PlacedComment) :
    endRow ended (cs ++ [c]) = some c.lastRow := by
  rw [endRow, List.getLast?_concat]

theorem endRow_cons (ended : Option Nat) (c : PlacedComment) (cs : List PlacedComment) :
    endRow ended (c :: cs) = endRow (some c.lastRow) cs := by
  cases cs with
  | nil => rfl
  | cons d ds =>
    have hlast : (d :: ds).getLast? = some ((d :: ds).getLast (List.cons_ne_nil d ds)) := List.getLast?_eq_some_getLast _
    rw [endRow, endRow, List.getLast?_cons_cons, hlast]

theorem standalone_flatten (ended : Option Nat) (cs : List PlacedComment) :
    (standalone ended cs : List (Group α)).flatMap Group.flatten = cs.map .inl := by
  induction cs generalizing ended with
  | nil => rfl
  | cons c cs ih => simp [standalone, Group.flatten, ih]

/-! ## Items -/

/-- The comment that trails what ends on a row, if the first of the siblings after it does, and the others. -/
def takeTrailing (row : Nat) : List (Sibling α) → Option PlacedComment × List (Sibling α)
  | .comment c :: rest => if c.trails row then (some c, rest) else (none, .comment c :: rest)
  | rest => (none, rest)

theorem takeTrailing_content (row : Nat) (ss : List (Sibling α)) :
    (takeTrailing row ss).1.toList.map .inl ++ (takeTrailing row ss).2.map Sibling.content = ss.map Sibling.content := by
  unfold takeTrailing
  split
  · split <;> rfl
  · rfl

theorem takeTrailing_trails : ∀ c ∈ (takeTrailing row ss).1, c.trails row = true := by
  intro c hc
  unfold takeTrailing at hc
  split at hc
  · split at hc
    · rename_i htrails
      cases hc
      exact htrails
    · cases hc
  · cases hc

theorem takeTrailing_none (h : (takeTrailing row ss).1 = none) {c : PlacedComment}
    (hc : ((takeTrailing row ss).2.map Sibling.content).head? = some (.inl c)) : c.trails row = false := by
  cases ss with
  | nil => cases hc
  | cons s rest =>
    cases s with
    | item firstRow lastRow a => cases hc
    | comment d =>
      rw [takeTrailing] at h hc
      split at h
      · cases h
      · rename_i htrails
        rw [if_neg htrails] at hc
        cases hc
        simpa using htrails

theorem mem_takeTrailing {s : Sibling α} (hs : s ∈ (takeTrailing row ss).2) : s ∈ ss := by
  unfold takeTrailing at hs
  split at hs
  · split at hs
    · exact List.mem_cons_of_mem _ hs
    · exact hs
  · exact hs

/-- The group of an item among the comments before it. -/
def itemGroup (ended : Option Nat) (pending : List PlacedComment) (firstRow : Nat) (a : α)
    (trailing : Option PlacedComment) : Group α where
  leading := (splitRun firstRow pending).1.reverse
  main := .inr a
  trailing := trailing
  blankBefore := gapAfter (endRow ended (splitRun firstRow pending).2.reverse)
    (((splitRun firstRow pending).1.reverse.head?.map (·.firstRow)).getD firstRow)

/-- What comes of an item: the comments that do not reach to it, its group, and the groups of what follows. -/
theorem groupsFrom_itemGroup (ended : Option Nat) (pending : List PlacedComment) (firstRow lastRow : Nat) (a : α)
    (rest : List (Sibling α)) : groupsFrom ended pending (.item firstRow lastRow a :: rest) =
      standalone ended (splitRun firstRow pending).2.reverse ++
        itemGroup ended pending firstRow a (takeTrailing lastRow rest).1 ::
          groupsFrom (some lastRow) [] (takeTrailing lastRow rest).2 := by
  cases rest with
  | nil => rfl
  | cons s rest =>
    cases s with
    | comment c =>
      conv => lhs; rw [groupsFrom]
      by_cases h : c.trails lastRow
      · simp only [takeTrailing, h, if_true]
        rfl
      · simp only [takeTrailing, h]
        rfl
    | item firstRow' lastRow' b => rfl

/-- Grouping goes from item to item. -/
@[elab_as_elim]
theorem groupsFrom_induction {motive : Option Nat → List PlacedComment → List (Sibling α) → Prop}
    (nil : ∀ ended pending, motive ended pending [])
    (comment : ∀ ended pending c rest, motive ended (c :: pending) rest → motive ended pending (.comment c :: rest))
    (item : ∀ ended pending firstRow lastRow a rest, motive (some lastRow) [] (takeTrailing lastRow rest).2 →
      motive ended pending (.item firstRow lastRow a :: rest))
    (ended : Option Nat) (pending : List PlacedComment) (ss : List (Sibling α)) : motive ended pending ss := by
  fun_induction groupsFrom ended pending ss with
  | case1 ended pending => exact nil ended pending
  | case2 ended pending c rest ih => exact comment _ _ _ _ ih
  | case3 _ _ _ _ _ _ _ _ _ _ _ _ c rest htrails ih =>
    refine item _ _ _ _ _ _ ?_
    rwa [takeTrailing, if_pos htrails]
  | case4 _ _ _ _ _ _ _ _ _ _ _ _ c rest htrails ih =>
    refine item _ _ _ _ _ _ ?_
    rwa [takeTrailing, if_neg htrails]
  | case5 _ _ _ _ _ _ _ _ _ _ _ _ r s v rest ih => exact item _ _ _ _ _ _ ih
  | case6 => exact item _ _ _ _ _ _ (nil _ _)

/-! ## All siblings -/

/-- **Groups have all siblings, in their order.** -/
theorem groupsFrom_flatten (ended : Option Nat) (pending : List PlacedComment) (ss : List (Sibling α)) :
    (groupsFrom ended pending ss).flatMap Group.flatten = pending.reverse.map .inl ++ ss.map Sibling.content := by
  induction ended, pending, ss using groupsFrom_induction with
  | nil ended pending => simp [groupsFrom, standalone_flatten]
  | comment ended pending c rest ih =>
    rw [groupsFrom, ih]
    simp [Sibling.content]
  | item ended pending firstRow lastRow a rest ih =>
    have hpending : pending.reverse = (splitRun firstRow pending).2.reverse ++ (splitRun firstRow pending).1.reverse := by
      rw [← List.reverse_append, splitRun_append]
    rw [groupsFrom_itemGroup, List.flatMap_append, List.flatMap_cons, ih, standalone_flatten, List.map_cons,
      ← takeTrailing_content lastRow rest, hpending]
    simp [Group.flatten, itemGroup, Sibling.content]

theorem groups_flatten (ss : List (Sibling α)) : (groups ss).flatMap Group.flatten = ss.map Sibling.content := by
  rw [groups, groupsFrom_flatten]
  rfl

/-- The first of all siblings is the first in the first group. -/
theorem head?_groupsFrom (ended : Option Nat) (ss : List (Sibling α)) :
    (groupsFrom ended [] ss).head?.bind (·.flatten.head?) = (ss.map Sibling.content).head? := by
  have hflatten := groupsFrom_flatten ended [] ss
  rw [List.reverse_nil, List.map_nil, List.nil_append] at hflatten
  rw [← hflatten]
  cases groupsFrom ended [] ss with
  | nil => rfl
  | cons g gs =>
    obtain ⟨x, xs, hx⟩ := List.exists_cons_of_ne_nil (show g.flatten ≠ [] by simp [Group.flatten])
    rw [List.flatMap_cons, List.head?_cons, Option.bind_some, hx]
    rfl

/-! ## Groups of other values -/

variable {β : Type}

def Sibling.map (f : α → β) : Sibling α → Sibling β
  | .comment c => .comment c
  | .item firstRow lastRow a => .item firstRow lastRow (f a)

def Group.map (f : α → β) (g : Group α) : Group β where
  leading := g.leading
  main := g.main.map id f
  trailing := g.trailing
  blankBefore := g.blankBefore

theorem standalone_map (f : α → β) (ended : Option Nat) (cs : List PlacedComment) :
    (standalone ended cs : List (Group α)).map (Group.map f) = standalone ended cs := by
  induction cs generalizing ended with
  | nil => rfl
  | cons c cs ih => rw [standalone, standalone, List.map_cons, ih]; rfl

theorem takeTrailing_map (f : α → β) (row : Nat) (ss : List (Sibling α)) :
    takeTrailing row (ss.map (Sibling.map f)) =
      ((takeTrailing row ss).1, (takeTrailing row ss).2.map (Sibling.map f)) := by
  cases ss with
  | nil => rfl
  | cons s ss =>
    cases s with
    | comment c =>
      rw [List.map_cons, Sibling.map, takeTrailing, takeTrailing]
      split <;> rfl
    | item firstRow lastRow a => rfl

/-- Grouping does not look at the values. -/
theorem groupsFrom_map (f : α → β) (ended : Option Nat) (pending : List PlacedComment) (ss : List (Sibling α)) :
    groupsFrom ended pending (ss.map (Sibling.map f)) = (groupsFrom ended pending ss).map (Group.map f) := by
  induction ended, pending, ss using groupsFrom_induction with
  | nil ended pending => rw [List.map_nil, groupsFrom, groupsFrom, standalone_map]
  | comment ended pending c rest ih => rw [List.map_cons, Sibling.map, groupsFrom, groupsFrom, ih]
  | item ended pending firstRow lastRow a rest ih =>
    rw [List.map_cons, Sibling.map, groupsFrom_itemGroup, groupsFrom_itemGroup, takeTrailing_map, ih, List.map_append,
      standalone_map, List.map_cons]
    rfl

end ApiRoutes.Script
