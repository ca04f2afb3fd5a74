import Mathlib.Data.List.Forall2
import ApiRoutes.Proofs.Script.Groups
import ApiRoutes.Proofs.Script.Lists
import ApiRoutes.Proofs.Script.Plain
/-!
# Rows

Statements and entries of literals stand one below the other, with comments above and after them
(`Row`).  Comments are grouped with what they stand by (`groups`), which gives back the rows that were
written (`sequence_rows`).
-/
namespace ApiRoutes.Script

/-! ## Comments -/

namespace Comment

/-- The characters of a comment. -/
def chars (c : Comment) : List Char := c.render.toChars?.getD []

/-- How many lines a comment ends within itself. -/
def breaks (c : Comment) : Nat := c.chars.count '\n'

theorem render_eq {c : Comment} (h : c.isSound = true) : c.render = Text.ofChars c.chars := by
  rw [isSound, Option.any_eq_true] at h
  obtain ⟨cs, hcs, -⟩ := h
  rw [chars, hcs]
  exact Text.eq_ofChars hcs

theorem length_chars {c : Comment} (h : c.isSound = true) : commentLength? c.chars = some c.chars.length := by
  rw [isSound, Option.any_eq_true] at h
  obtain ⟨cs, hcs, h⟩ := h
  rw [chars, hcs]
  exact beq_iff_eq.1 h

end Comment

/-! ## Rows -/

/-- A line of its own among others, with a blank line above it or not. -/
inductive Row (ι : Type)
  | comment (blank : Bool) (c : Comment)
  | item (blank : Bool) (above : List Comment) (x : ι) (trailing : Option Comment)

variable {ι : Type}

namespace Row

def blank : Row ι → Bool
  | .comment blank _ => blank
  | .item blank .. => blank

def isComment : Row ι → Bool
  | .comment .. => true
  | .item .. => false

/-- Do the comments end where their texts do, and the one after the item on its line? -/
def isSound : Row ι → Bool
  | .comment _ c => c.isSound
  | .item _ above _ trailing =>
    above.all Comment.isSound && trailing.all fun c => c.isSound && !c.text.any (· == '\n')

end Row

/-- Does a blank line stand between a comment on its own and what follows it? -/
def spaced : List (Row ι) → Bool
  | [] => true
  | row :: rest => (!row.isComment || rest.head?.all fun next => next.isComment || next.blank) && spaced rest

/-- The rows of comments one below the other, from a row on. -/
def placeComments (k : Nat) : List Comment → List PlacedComment
  | [] => []
  | c :: cs => ⟨c, k, k + c.breaks⟩ :: placeComments (k + c.breaks + 1) cs

/-- The row after comments one below the other. -/
def rowAfter (k : Nat) : List Comment → Nat
  | [] => k
  | c :: cs => rowAfter (k + c.breaks + 1) cs

/-- The siblings that rows are read as, from a row on; `breaks` says how many lines an item ends within
itself, and `Q` what an item is read as. -/
inductive Placed {α : Type} (breaks : ι → Nat) (Q : ι → α → Prop) :
    Nat → List (Row ι) → List (Sibling α) → Prop
  | nil (k : Nat) : Placed breaks Q k [] []
  | comment {k : Nat} {blank : Bool} {c : Comment} {rows : List (Row ι)} {ss : List (Sibling α)}
      (h : Placed breaks Q (k + blank.toNat + c.breaks + 1) rows ss) :
      Placed breaks Q k (.comment blank c :: rows)
        (.comment ⟨c, k + blank.toNat, k + blank.toNat + c.breaks⟩ :: ss)
  | item {k m : Nat} {blank : Bool} {above : List Comment} {x : ι} {trailing : Option Comment} {v : α}
      {rows : List (Row ι)} {ss : List (Sibling α)} (hm : m = rowAfter (k + blank.toNat) above) (hv : Q x v)
      (h : Placed breaks Q (m + breaks x + 1) rows ss) :
      Placed breaks Q k (.item blank above x trailing :: rows)
        ((placeComments (k + blank.toNat) above).map .comment ++ .item m (m + breaks x) v ::
          (trailing.toList.map fun c => .comment ⟨c, m + breaks x, m + breaks x + c.breaks⟩) ++ ss)

/-! ## Groups -/

section

variable {α : Type}

theorem splitRun_placed : ∀ (cs : List Comment) (k : Nat) (pending : List PlacedComment),
    splitRun (rowAfter k cs) ((placeComments k cs).reverse ++ pending) =
      ((placeComments k cs).reverse ++ (splitRun k pending).1, (splitRun k pending).2)
  | [], _, _ => rfl
  | c :: cs, k, pending => by
    rw [rowAfter, placeComments, List.reverse_cons, List.append_assoc, List.singleton_append, splitRun_placed cs,
      splitRun, if_pos (Nat.le_refl _), List.append_assoc]
    rfl

theorem groupsFrom_comments (ended : Option Nat) (ss : List (Sibling α)) : ∀ (cs : List PlacedComment) (pending : List PlacedComment),
    groupsFrom ended pending (cs.map .comment ++ ss) = groupsFrom ended (cs.reverse ++ pending) ss
  | [], _ => rfl
  | c :: cs, pending => by
    rw [List.map_cons, List.cons_append, groupsFrom, groupsFrom_comments ended ss cs, List.reverse_cons, List.append_assoc]
    rfl

/-- Nothing that follows trails what ends on a row. -/
def NoneTrails (row : Nat) (ss : List (Sibling α)) : Prop :=
  ∀ c rest, ss = .comment c :: rest → c.trails row = false

theorem groupsFrom_item {ended : Option Nat} {pending : List PlacedComment} {f l : Nat} {v : α}
    {ss : List (Sibling α)} (h : NoneTrails l ss) : groupsFrom ended pending (.item f l v :: ss) =
      standalone ended (splitRun f pending).2.reverse ++
        itemGroup ended pending f v none :: groupsFrom (some l) [] ss := by
  have htrailing : takeTrailing l ss = (none, ss) := by
    unfold takeTrailing
    split
    · rename_i c rest
      rw [if_neg (Bool.eq_false_iff.1 (h c rest rfl))]
    · rfl
  rw [groupsFrom_itemGroup, htrailing]

theorem groupsFrom_trailed {ended : Option Nat} {pending : List PlacedComment} {f l : Nat} {v : α}
    {c : PlacedComment} {ss : List (Sibling α)} (h : c.trails l = true) :
    groupsFrom ended pending (.item f l v :: .comment c :: ss) =
      standalone ended (splitRun f pending).2.reverse ++
        itemGroup ended pending f v (some c) :: groupsFrom (some l) [] ss := by
  rw [groupsFrom_itemGroup, takeTrailing, if_pos h]

/-- Lists that agree one by one, where the first of all is told from the others. -/
inductive Aligned {β γ : Type} (R : Bool → β → γ → Prop) : Bool → List β → List γ → Prop
  | nil {first : Bool} : Aligned R first [] []
  | cons {first : Bool} {b : β} {c : γ} {bs : List β} {cs : List γ} (h : R first b c) (hrest : Aligned R false bs cs) :
    Aligned R first (b :: bs) (c :: cs)

/-- What is recorded of a blank line above. -/
def recordedBlank (first blank : Bool) : Option Bool := if first then none else some blank

/-- The group that is made of a row. -/
inductive GroupOf (Q : ι → α → Prop) (first : Bool) : Row ι → Group α → Prop
  | comment (blank : Bool) (c : PlacedComment) :
    GroupOf Q first (.comment blank c.comment) { main := .inl c, blankBefore := recordedBlank first blank }
  | item {blank : Bool} {leading : List PlacedComment} {x : ι} {v : α} {trailing : Option PlacedComment} (hv : Q x v) :
    GroupOf Q first (.item blank (leading.map (·.comment)) x (trailing.map (·.comment)))
      { leading, main := .inr v, trailing, blankBefore := recordedBlank first blank }

theorem standalone_append (c : PlacedComment) : ∀ (ended : Option Nat) (cs : List PlacedComment),
    (standalone ended (cs ++ [c]) : List (Group α)) =
      standalone ended cs ++ [{ main := .inl c, blankBefore := gapAfter (endRow ended cs) c.firstRow }]
  | _, [] => rfl
  | ended, d :: cs => by
    rw [List.cons_append, standalone, standalone_append c _ cs, standalone]
    cases cs with
    | nil => rfl
    | cons e cs => simp [endRow, List.getLast?_cons]

theorem gapAfter_next {ended : Option Nat} {k : Nat} (h : ∀ r, ended = some r → r + 1 = k) (blank : Bool) :
    gapAfter ended (k + blank.toNat) = recordedBlank ended.isNone blank := by
  cases ended with
  | none => rfl
  | some r =>
    rw [← h r rfl]
    cases blank <;> simp [gapAfter, recordedBlank]

theorem map_placeComments : ∀ (k : Nat) (cs : List Comment), (placeComments k cs).map (·.comment) = cs
  | _, [] => rfl
  | k, c :: cs => by rw [placeComments, List.map_cons, map_placeComments]

theorem firstRow_placeComments (k : Nat) (cs : List Comment) :
    ((placeComments k cs).head?.map (·.firstRow)).getD (rowAfter k cs) = k := by
  cases cs <;> rfl

theorem Placed.noneTrails {breaks : ι → Nat} {Q : ι → α → Prop} {k l : Nat} {rows : List (Row ι)} {ss : List (Sibling α)}
    (h : Placed breaks Q k rows ss) (hl : l < k) : NoneTrails l ss := by
  have hlater {c : PlacedComment} (hc : l < c.firstRow) : c.trails l = false := by
    rw [PlacedComment.trails, beq_eq_false_iff_ne.2 (Nat.ne_of_gt hc)]
    rfl
  intro c rest heq
  cases h with
  | nil => cases heq
  | comment h =>
    cases heq
    exact hlater (Nat.lt_of_lt_of_le hl (Nat.le_add_right _ _))
  | @item k m blank above x trailing v rows ss hm hv h =>
    cases above with
    | nil => cases heq
    | cons d above =>
      cases heq
      exact hlater (Nat.lt_of_lt_of_le hl (Nat.le_add_right _ _))

/-- **Rows are grouped** as they stand. -/
theorem groupsFrom_placed {breaks : ι → Nat} {Q : ι → α → Prop} {k : Nat} {rows : List (Row ι)} {ss : List (Sibling α)}
    (h : Placed breaks Q k rows ss) : ∀ (ended : Option Nat) (pending : List PlacedComment),
      rows.all Row.isSound = true → spaced rows = true →
      (∀ r, endRow ended pending.reverse = some r → r + 1 = k) →
      (pending = [] ∨ rows.head?.all fun row => row.isComment || row.blank) →
      ∃ gs, groupsFrom ended pending ss = standalone ended pending.reverse ++ gs ∧
        Aligned (GroupOf Q) (endRow ended pending.reverse).isNone rows gs := by
  induction h with
  | nil => exact fun _ _ _ _ _ _ => ⟨[], (List.append_nil _).symm, .nil⟩
  | @comment k blank c rows ss h ih =>
    intro ended pending hsound hspaced hrow _
    rw [List.all_cons, Bool.and_eq_true] at hsound
    rw [spaced, Bool.and_eq_true] at hspaced
    obtain ⟨gs, hgs, haligned⟩ := ih ended
      (⟨c, k + blank.toNat, k + blank.toNat + c.breaks⟩ :: pending) hsound.2 hspaced.2
      (fun r hr => by
        rw [List.reverse_cons, endRow_append] at hr
        cases hr
        rfl) (.inr (by simpa [Row.isComment] using hspaced.1))
    rw [List.reverse_cons, endRow_append] at haligned
    refine ⟨_, ?_, .cons (.comment blank ⟨c, k + blank.toNat, k + blank.toNat + c.breaks⟩) haligned⟩
    rw [groupsFrom, hgs, List.reverse_cons, standalone_append, List.append_assoc, gapAfter_next hrow]
    rfl
  | @item k m blank above x trailing v rows ss hm hv h ih =>
    intro ended pending hsound hspaced hrow hpending
    rw [List.all_cons, Bool.and_eq_true] at hsound
    rw [spaced, Bool.and_eq_true] at hspaced
    have hsplit : splitRun (k + blank.toNat) pending = ([], pending) := by
      cases pending with
      | nil => rfl
      | cons c pending =>
        have hblank : blank = true := by simpa [Row.isComment, Row.blank] using hpending
        have hlast := hrow c.lastRow (by rw [List.reverse_cons, endRow_append])
        rw [splitRun, if_neg (by rw [hblank, Bool.toNat_true]; omega)]
    have hrun : splitRun m ((placeComments (k + blank.toNat) above).reverse ++ pending) =
        ((placeComments (k + blank.toNat) above).reverse, pending) := by
      rw [hm, splitRun_placed, hsplit, List.append_nil]
    have hnext := ih (some (m + breaks x)) [] hsound.2 hspaced.2 (fun r hr => by cases hr; rfl) (.inl rfl)
    obtain ⟨gs, hgs, haligned⟩ := hnext
    have hblank : gapAfter (endRow ended pending.reverse)
        (((placeComments (k + blank.toNat) above).head?.map (·.firstRow)).getD m) =
          recordedBlank (endRow ended pending.reverse).isNone blank := by
      rw [hm, firstRow_placeComments, gapAfter_next hrow]
    have hitem (t : Option PlacedComment) :
        GroupOf Q (endRow ended pending.reverse).isNone
          (.item blank ((placeComments (k + blank.toNat) above).map (·.comment)) x (t.map (·.comment)))
          { leading := placeComments (k + blank.toNat) above, main := .inr v, trailing := t,
            blankBefore := recordedBlank (endRow ended pending.reverse).isNone blank } := .item hv
    rw [map_placeComments] at hitem
    rw [List.append_assoc, groupsFrom_comments]
    cases trailing with
    | none =>
      refine ⟨_, ?_, .cons (hitem none) haligned⟩
      rw [Option.toList_none, List.map_nil, List.singleton_append,
        groupsFrom_item (h.noneTrails (Nat.lt_succ_self _)), itemGroup, hrun, List.reverse_reverse, hblank, hgs]
      rfl
    | some c =>
      refine ⟨_, ?_, .cons (hitem (some ⟨c, m + breaks x, m + breaks x + c.breaks⟩)) haligned⟩
      have htrails : PlacedComment.trails ⟨c, m + breaks x, m + breaks x + c.breaks⟩ (m + breaks x) = true := by
        have hc := hsound.1
        rw [Row.isSound, Option.all_some, Bool.and_eq_true, Bool.and_eq_true] at hc
        rw [PlacedComment.trails, beq_self_eq_true, hc.2.2]
        rfl
      rw [Option.toList_some, List.map_singleton, List.cons_append, List.singleton_append,
        groupsFrom_trailed htrails, itemGroup, hrun, List.reverse_reverse, hblank, hgs]
      rfl

end

/-! ## Nodes -/

/-- The node that is read for a row. -/
inductive NodeOf (P : ι → Shape → Prop) (first : Bool) : Row ι → Node → Prop
  | comment (blank : Bool) (c : Comment) :
    NodeOf P first (.comment blank c) (.mk { blankBefore := recordedBlank first blank } (.comment c))
  | item {blank : Bool} {above : List Comment} {x : ι} {trailing : Option Comment} {s : Shape} (hs : P x s) :
    NodeOf P first (.item blank above x trailing)
      (.mk { comments := above, trailing, blankBefore := recordedBlank first blank } s)

theorem mapM_aligned {β γ δ ε : Type} {R : Bool → β → γ → Prop} {S : Bool → β → δ → Prop} {f : γ → Except ε δ}
    (hf : ∀ first b c, R first b c → ∃ d, f c = .ok d ∧ S first b d) {first : Bool} {bs : List β} {cs : List γ}
    (h : Aligned R first bs cs) : ∃ ds, cs.mapM f = .ok ds ∧ Aligned S first bs ds := by
  induction h with
  | nil => exact ⟨[], rfl, .nil⟩
  | cons h _ ih =>
    obtain ⟨d, hd, hs⟩ := hf _ _ _ h
    obtain ⟨ds, hds, hrest⟩ := ih
    refine ⟨d :: ds, ?_, .cons hs hrest⟩
    rw [List.mapM_cons, hd, hds]
    rfl

/-- **Rows are read back** one by one. -/
theorem sequence_rows {breaks : ι → Nat} {P : ι → Shape → Prop} {k : Nat} {rows : List (Row ι)}
    {ss : List (Sibling (Reading Node))} (h : Placed breaks (fun x v => ∃ s, v = .ok (.ofShape s) ∧ P x s) k rows ss)
    (hsound : rows.all Row.isSound = true) (hspaced : spaced rows = true) :
    ∃ ns, sequence ss = .ok ns ∧ Aligned (NodeOf P) true rows ns := by
  obtain ⟨gs, hgs, haligned⟩ := groupsFrom_placed h none [] hsound hspaced nofun (.inl rfl)
  rw [sequence, groups, hgs]
  refine mapM_aligned (fun first row g hg => ?_) haligned
  cases hg with
  | comment blank c => exact ⟨_, rfl, .comment blank c.comment⟩
  | item hv =>
    obtain ⟨s, rfl, hs⟩ := hv
    exact ⟨_, rfl, .item hs⟩

/-! ## Without comments -/

theorem groupsFrom_items {α : Type} {f : Concrete → α} : ∀ (ts : List Concrete) (ended : Option Nat),
    ∃ gs, groupsFrom ended [] (ts.map fun t => .item t.firstRow t.lastRow (f t)) = gs ∧
      List.Forall₂ (fun t g => ∃ b, g = ({ main := .inr (f t), blankBefore := b } : Group α)) ts gs
  | [], _ => ⟨[], rfl, .nil⟩
  | t :: ts, ended => by
    obtain ⟨gs, hgs, hrest⟩ := groupsFrom_items (f := f) ts (some t.lastRow)
    have hnone : NoneTrails t.lastRow (ts.map fun t => Sibling.item t.firstRow t.lastRow (f t)) := by
      intro c rest heq
      cases ts <;> cases heq
    refine ⟨_, ?_, .cons ⟨gapAfter ended t.firstRow, rfl⟩ hrest⟩
    rw [List.map_cons, groupsFrom_item hnone, hgs]
    rfl

/-- **Items without comments are read back** one by one. -/
theorem sequence_items {f : Concrete → Reading Node} {ts : List Concrete} {ss : List Shape}
    (h : List.Forall₂ (fun t s => f t = .ok (.ofShape s)) ts ss) :
    ∃ ns, sequence (ts.map fun t => .item t.firstRow t.lastRow (f t)) = .ok ns ∧
      List.Forall₂ (fun s n => ∃ b, n = Node.mk { blankBefore := b } s) ss ns := by
  obtain ⟨gs, hgs, hgroups⟩ := groupsFrom_items (f := f) ts none
  rw [sequence, groups, hgs]
  clear hgs
  induction hgroups generalizing ss with
  | nil =>
    cases h
    exact ⟨[], rfl, .nil⟩
  | cons hg _ ih =>
    obtain _ | ⟨hs, hrest⟩ := h
    obtain ⟨b, rfl⟩ := hg
    obtain ⟨ns, hns, hnodes⟩ := ih hrest
    refine ⟨_, ?_, .cons ⟨b, rfl⟩ hnodes⟩
    rw [List.mapM_cons, hns, hs]
    rfl

end ApiRoutes.Script
