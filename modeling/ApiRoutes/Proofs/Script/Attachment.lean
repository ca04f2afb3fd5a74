import ApiRoutes.Proofs.Script.Comments
import Mathlib.Data.List.Chain
/-!
# Where comments go

A sequence of siblings gives each comment to the tree that it stands above or behind, or leaves it on its own, and no
comment is lost or doubled (`sequence_attaches`).  What a comment belongs to is told by its rows alone: those above a
tree reach to it without a blank row, the one behind it starts on its last row, and the layout of each item says
whether a blank row stands above it.
-/
namespace ApiRoutes.Script

/-! ## Siblings and their rows -/

namespace Concrete

/-- A comment, or a tree that is none. -/
def content (t : Concrete) : PlacedComment ⊕ Concrete := if t.isComment then .inl (commentOf t) else .inr t

def sibling (t : Concrete) : Sibling Concrete :=
  if t.isComment then .comment (commentOf t) else .item t.firstRow t.lastRow t

theorem content_sibling (t : Concrete) : t.sibling.content = t.content := by
  unfold sibling content
  split <;> rfl

theorem content_eq_inr {t u : Concrete} (h : t.content = .inr u) : t = u ∧ t.isComment = false := by
  unfold content at h
  split at h
  · cases h
  · rename_i hcomment
    exact ⟨Sum.inr.inj h, by simpa using hcomment⟩

theorem isNamed_of_isComment {t : Concrete} (h : t.isComment = true) : t.isNamed = true := by
  rw [isComment, beq_iff_eq] at h
  rw [isNamed, h]

end Concrete

def firstRowOf : PlacedComment ⊕ Concrete → Nat := Sum.elim (·.firstRow) Concrete.firstRow

def lastRowOf : PlacedComment ⊕ Concrete → Nat := Sum.elim (·.lastRow) Concrete.lastRow

theorem firstRowOf_content (t : Concrete) : firstRowOf t.content = t.firstRow := by
  unfold Concrete.content
  split <;> rfl

theorem lastRowOf_content (t : Concrete) : lastRowOf t.content = t.lastRow := by
  unfold Concrete.content
  split <;> rfl

/-- The rows of a sibling are those of its tree. -/
def Sibling.Fits : Sibling Concrete → Prop
  | .comment _ => True
  | .item firstRow lastRow t => firstRow = t.firstRow ∧ lastRow = t.lastRow

theorem fits_sibling (t : Concrete) : t.sibling.Fits := by
  unfold Concrete.sibling
  split
  · exact trivial
  · exact ⟨rfl, rfl⟩

namespace Group

/-- The first row of a group: that of its first leading comment, or of its sibling when it has none. -/
def firstRow (g : Group Concrete) : Nat := (g.leading.head?.map (·.firstRow)).getD (firstRowOf g.main)

/-- The row that the sibling of a group ends on. -/
def lastRow (g : Group Concrete) : Nat := lastRowOf g.main

end Group

/-! ## What attachment says -/

/-- One item stands after another: it says whether a blank row parts them, a comment on its own is parted from a tree
below it, and a comment that could trail the tree before it does so. -/
structure Succeeds (g h : Group Concrete) : Prop where
  blank : h.blankBefore = some (decide (g.lastRow + 1 < h.firstRow))
  alone : g.main.isLeft → h.main.isRight → h.blankBefore = some true
  behind : g.main.isRight → g.trailing = none → ∀ c, h.flatten.head? = some (.inl c) → c.trails g.lastRow = false

/-- Groups attach the comments among some trees. -/
structure Attaches (ts : List Concrete) (gs : List (Group Concrete)) : Prop where
  flatten : gs.flatMap Group.flatten = ts.map Concrete.content
  /-- Leading comments reach to their tree without a blank row. -/
  leading : ∀ g ∈ gs, (g.leading.map Sum.inl ++ [g.main]).IsChain fun a b =>
    lastRowOf a ≤ firstRowOf b ∧ firstRowOf b ≤ lastRowOf a + 1
  /-- A trailing comment stands on the row that its tree ends on. -/
  trailing : ∀ g ∈ gs, ∀ c ∈ g.trailing, c.comment.text.any (· == '\n') = false ∧ c.firstRow = g.lastRow
  first : ∀ g ∈ gs.head?, g.blankBefore = none
  follows : gs.IsChain Succeeds

/-! ## Runs of comments -/

/-- The comments of a run reach to one another, and the last one to the row. -/
theorem splitRun_reaches (row : Nat) (cs : List PlacedComment) {x : PlacedComment ⊕ Concrete}
    (hx : firstRowOf x = row) :
    ((splitRun row cs).1.reverse.map Sum.inl ++ [x]).IsChain fun a b => firstRowOf b ≤ lastRowOf a + 1 := by
  fun_induction splitRun row cs generalizing x with
  | case1 row => exact .singleton x
  | case2 row c rest hreach run others hrun ih =>
    have hchain := ih (x := .inl c) rfl
    rw [hrun] at hchain
    rw [List.reverse_cons, List.map_append, List.map_singleton]
    refine hchain.append (.singleton x) fun a ha b hb => ?_
    rw [List.getLast?_concat, Option.mem_some_iff] at ha
    cases ha
    cases hb
    rw [hx]
    exact hreach
  | case3 row c rest hreach => exact .singleton x

/-- The comment before a run does not reach to it. -/
theorem splitRun_apart (row : Nat) (cs : List PlacedComment) : ∀ c ∈ (splitRun row cs).2.head?,
    c.lastRow + 1 < ((splitRun row cs).1.reverse.head?.map (·.firstRow)).getD row := by
  fun_induction splitRun row cs with
  | case1 row =>
    intro c hc
    cases hc
  | case2 row c rest hreach run others hrun ih =>
    rw [hrun] at ih
    intro d hd
    have happart := ih d hd
    cases hreversed : run.reverse with
    | nil => simpa [hreversed] using happart
    | cons e es => simpa [hreversed] using happart
  | case3 row c rest hreach =>
    intro d hd
    cases hd
    simpa using hreach

/-! ## Groups and what stands before them -/

/-- Groups stand one after another, the first of them after what ended on a row. -/
def Stand (ended : Option Nat) (gs : List (Group Concrete)) : Prop :=
  (∀ g ∈ gs.head?, g.blankBefore = gapAfter ended g.firstRow) ∧ gs.IsChain Succeeds

/-- Comments on their own stand before groups that stand after them. -/
theorem stand_standalone {ended : Option Nat} {cs : List PlacedComment} {gs : List (Group Concrete)}
    (hgs : Stand (endRow ended cs) gs)
    (halone : ∀ g ∈ gs.head?, cs ≠ [] → g.main.isRight → g.blankBefore = some true) :
    Stand ended (standalone ended cs ++ gs) := by
  induction cs generalizing ended with
  | nil => exact hgs
  | cons c cs ih =>
    rw [endRow_cons] at hgs
    obtain ⟨hhead, hchain⟩ := ih hgs fun g hg _ => halone g hg (List.cons_ne_nil c cs)
    refine ⟨fun g hg => ?_, hchain.cons fun h hh => ⟨hhead h hh, fun _ hright => ?_, nofun⟩⟩
    · cases hg
      rfl
    · cases cs with
      | nil => exact halone h hh (List.cons_ne_nil c []) hright
      | cons d ds =>
        cases hh
        cases hright

/-- **Groups stand one after another.** -/
theorem groupsFrom_stand (ended : Option Nat) (pending : List PlacedComment) (ss : List (Sibling Concrete))
    (hfits : ∀ s ∈ ss, s.Fits) : Stand ended (groupsFrom ended pending ss) := by
  -- an item ends the comments before it, and what follows it starts again from its last row
  induction ended, pending, ss using groupsFrom_induction with
  | nil ended pending =>
    have h : Stand ended (standalone ended pending.reverse ++ []) := stand_standalone ⟨nofun, .nil⟩ nofun
    rwa [List.append_nil] at h
  | comment ended pending c rest ih => exact ih fun s hs => hfits s (List.mem_cons_of_mem _ hs)
  | item ended pending firstRow lastRow a rest ih =>
    obtain ⟨rfl, rfl⟩ := hfits _ List.mem_cons_self
    obtain ⟨hhead, hchain⟩ := ih fun s hs => hfits s (List.mem_cons_of_mem _ (mem_takeTrailing hs))
    rw [groupsFrom_itemGroup]
    refine stand_standalone ⟨fun g hg => ?_, hchain.cons fun h hh => ⟨hhead h hh, nofun, fun _ hnone c hc => ?_⟩⟩ ?_
    · cases hg
      rfl
    · refine takeTrailing_none hnone ?_
      rw [← head?_groupsFrom, Option.mem_def.1 hh]
      exact hc
    · intro g hg hothers _
      cases hg
      cases hrest : (splitRun a.firstRow pending).2 with
      | nil => exact absurd (congrArg List.reverse hrest) hothers
      | cons c others =>
        have happart := splitRun_apart a.firstRow pending c (by rw [hrest]; rfl)
        rw [itemGroup, hrest, List.reverse_cons, endRow_append, gapAfter, Option.map_some, decide_eq_true happart]

/-- Each of the groups is a comment on its own, or an item among the comments before it. -/
theorem groupsFrom_forall {P : Group Concrete → Prop} (halone : ∀ c blank, P { main := .inl c, blankBefore := blank })
    (hitem : ∀ ended pending (t : Concrete) trailing, (∀ c ∈ trailing, c.trails t.lastRow = true) →
      P (itemGroup ended pending t.firstRow t trailing))
    (ended : Option Nat) (pending : List PlacedComment) (ss : List (Sibling Concrete)) (hfits : ∀ s ∈ ss, s.Fits) :
    ∀ g ∈ groupsFrom ended pending ss, P g := by
  have hstandalone (ended : Option Nat) (cs : List PlacedComment) : ∀ g ∈ standalone ended cs, P g := by
    induction cs generalizing ended with
    | nil => nofun
    | cons c cs ih => exact List.forall_mem_cons.2 ⟨halone _ _, ih _⟩
  induction ended, pending, ss using groupsFrom_induction with
  | nil ended pending => exact hstandalone _ _
  | comment ended pending c rest ih => exact ih fun s hs => hfits s (List.mem_cons_of_mem _ hs)
  | item ended pending firstRow lastRow t rest ih =>
    obtain ⟨rfl, rfl⟩ := hfits _ List.mem_cons_self
    have hrest := ih fun s hs => hfits s (List.mem_cons_of_mem _ (mem_takeTrailing hs))
    rw [groupsFrom_itemGroup]
    intro g hg
    obtain hg | hg := List.mem_append.1 hg
    · exact hstandalone _ _ g hg
    · obtain rfl | hg := List.mem_cons.1 hg
      · exact hitem _ _ _ _ takeTrailing_trails
      · exact hrest g hg

/-! ## Sequences -/

/-- **The groups of siblings attach the comments among them.** -/
theorem groups_attach {ts : List Concrete} (horder : ts.IsChain fun t u => t.lastRow ≤ u.firstRow) :
    Attaches ts (groups (ts.map Concrete.sibling)) := by
  have hfits : ∀ s ∈ ts.map Concrete.sibling, s.Fits := by
    intro s hs
    obtain ⟨t, -, rfl⟩ := List.mem_map.1 hs
    exact fits_sibling t
  obtain ⟨hhead, hchain⟩ := groupsFrom_stand none [] _ hfits
  have hflatten : (groups (ts.map Concrete.sibling)).flatMap Group.flatten = ts.map Concrete.content := by
    rw [groups_flatten, List.map_map]
    exact List.map_congr_left fun t _ => t.content_sibling
  refine ⟨hflatten, fun g hg => ?_, ?_, hhead, hchain⟩
  · -- the order of the rows comes with the trees, the nearness with the run
    have hrows : (ts.map Concrete.content).IsChain fun a b => lastRowOf a ≤ firstRowOf b := by
      rw [List.isChain_map]
      exact horder.imp fun t u h => by rwa [lastRowOf_content, firstRowOf_content]
    have hinfix : g.leading.map Sum.inl ++ [g.main] <:+: ts.map Concrete.content := by
      rw [← hflatten]
      obtain ⟨before, after, hgs⟩ := List.append_of_mem hg
      exact ⟨before.flatMap Group.flatten, g.trailing.toList.map Sum.inl ++ after.flatMap Group.flatten, by
        simp [hgs, Group.flatten]⟩
    have hnear : (g.leading.map Sum.inl ++ [g.main]).IsChain fun a b => firstRowOf b ≤ lastRowOf a + 1 := by
      refine groupsFrom_forall (P := fun g => (g.leading.map Sum.inl ++ [g.main]).IsChain fun a b =>
        firstRowOf b ≤ lastRowOf a + 1) ?_ ?_ none [] _ hfits g hg
      · exact fun c _ => .singleton _
      · exact fun _ pending t _ _ => splitRun_reaches t.firstRow pending rfl
    have := hrows.infix hinfix
    rw [List.isChain_iff_getElem] at this hnear ⊢
    exact fun i hi => ⟨this i hi, hnear i hi⟩
  · refine groupsFrom_forall ?_ ?_ none [] _ hfits
    · intro _ _ c hc
      cases hc
    · intro _ _ t trailing htrails c hc
      have := htrails c hc
      rw [PlacedComment.trails, Bool.and_eq_true, beq_iff_eq, Bool.not_eq_true'] at this
      exact this.symm

/-- The node of a group: what its tree is converted to, or its comment, in the layout of the group. -/
def Group.node (convert : Concrete → Node) (g : Group Concrete) : Node :=
  (g.main.elim (fun c => .ofShape (.comment c.comment)) convert).withLayout g.layout

theorem siblings_eq_map (read : Concrete → Reading Node) (ts : List Concrete) :
    siblings read ts = ((ts.filter Concrete.isNamed).map Concrete.sibling).map (Sibling.map read) := by
  have hsibling (t : Concrete) (h : t.isNamed = true) : siblingOf t (read t) = [t.sibling.map read] := by
    unfold siblingOf Concrete.sibling
    split
    · rfl
    · rfl
  induction ts with
  | nil => rfl
  | cons t ts ih =>
    rw [siblings, List.flatMap_cons, ← siblings, ih]
    by_cases h : t.isNamed = true
    · rw [hsibling t h, List.filter_cons_of_pos h]
      rfl
    · have hcomment : t.isComment = false := Bool.eq_false_iff.2 fun hc => h (Concrete.isNamed_of_isComment hc)
      rw [List.filter_cons_of_neg h, siblingOf, hcomment, if_neg h]
      rfl

/-- **A sequence attaches the comments among trees**, whatever the trees are converted to. -/
theorem sequence_attaches {ts : List Concrete} {read : Concrete → Reading Node} {convert : Concrete → Node}
    (horder : (ts.filter Concrete.isNamed).IsChain fun t u => t.lastRow ≤ u.firstRow)
    (hread : ∀ t ∈ ts, t.isNamed → t.isComment = false → read t = .ok (convert t)) :
    ∃ gs : List (Group Concrete), sequence (siblings read ts) = .ok (gs.map (Group.node convert)) ∧
      Attaches (ts.filter Concrete.isNamed) gs := by
  have hattach := groups_attach horder
  refine ⟨_, ?_, hattach⟩
  rw [siblings_eq_map, sequence, groups, groupsFrom_map, ← groups, mapM_eq_ok, List.forall₂_map_left_iff,
    List.forall₂_map_right_iff, List.forall₂_same]
  intro g hg
  obtain ⟨leading, main, trailing, blankBefore⟩ := g
  cases main with
  | inl c => rfl
  | inr t =>
    have hmem : .inr t ∈ (ts.filter Concrete.isNamed).map Concrete.content := by
      rw [← hattach.flatten]
      exact List.mem_flatMap.2 ⟨_, hg, by simp [Group.flatten]⟩
    obtain ⟨u, hu, hcontent⟩ := List.mem_map.1 hmem
    obtain ⟨rfl, hcomment⟩ := Concrete.content_eq_inr hcontent
    obtain ⟨hts, hnamed⟩ := List.mem_filter.1 hu
    refine bind_eq_ok.2 ⟨convert u, hread u hts hnamed hcomment, rfl⟩

/-- One comment above, one behind, one on its own, and one above again. -/
def commentedStatements : List Char := "// a\nx; // b\n\n/* c */\n\n// d\ny;\n".toList

def commentedLayouts : List Layout :=
  [⟨[⟨" a", false⟩], some ⟨" b", false⟩, none⟩, ⟨[], none, some true⟩, ⟨[⟨" d", false⟩], none, some true⟩]

theorem sequence_attaches_sample : ∃ (tree : Concrete) (convert : Concrete → Node) (gs : List (Group Concrete)),
    Grammar.recognise commentedStatements = .ok tree ∧
      sequence (siblings readStatement tree.children) = .ok (gs.map (Group.node convert)) ∧
        Attaches (tree.children.filter Concrete.isNamed) gs ∧
          (gs.map (Group.node convert)).map Node.layout = commentedLayouts := by
  have hsample : ((Grammar.recognise commentedStatements).toOption.any fun tree =>
      decide ((tree.children.filter Concrete.isNamed).IsChain fun t u => t.lastRow ≤ u.firstRow) &&
        (tree.children.all (fun t => t.isComment || (readStatement t).toOption.isSome) &&
          (sequence (siblings readStatement tree.children)).toOption.any fun ns =>
            decide (ns.map Node.layout = commentedLayouts))) = true := by
    decide +kernel
  cases htree : Grammar.recognise commentedStatements with
  | error e =>
    rw [htree] at hsample
    cases hsample
  | ok tree =>
    rw [htree] at hsample
    simp only [Except.toOption, Option.any_some, Bool.and_eq_true, decide_eq_true_eq, List.all_eq_true,
      Bool.or_eq_true] at hsample
    obtain ⟨horder, hread, hlayouts⟩ := hsample
    have hconvert (t : Concrete) (ht : t ∈ tree.children) (_ : t.isNamed = true) (hcomment : t.isComment = false) :
        readStatement t = .ok ((readStatement t).toOption.getD default) := by
      have hok := (hread t ht).resolve_left (by simp [hcomment])
      cases hr : readStatement t with
      | error e => simp [hr] at hok
      | ok n => rfl
    obtain ⟨gs, hgs, hattaches⟩ := sequence_attaches horder hconvert
    refine ⟨tree, _, gs, rfl, hgs, hattaches, ?_⟩
    rw [hgs] at hlayouts
    simpa using hlayouts

end ApiRoutes.Script
