import ApiRoutes.Text.Difference
import Mathlib.Data.List.Chain
/-!
# Differences are edit scripts

The pieces of a difference make up the old list and the new one (`flatMap_old_difference`,
`flatMap_new_difference`).  None is empty, and between two changes there is something that stands in both lists
(`difference_alternates`).  Equal lists have no change (`difference_self`): the longest common run is found on the
diagonal, as a run elsewhere has been met there before, or is met there first.
-/
namespace ApiRoutes

variable {α : Type}

namespace Piece

def isSame : Piece α → Bool
  | .same _ => true
  | .changed _ _ => false

/-- Does the piece hold any item? -/
def IsInhabited : Piece α → Prop
  | .same items => items ≠ []
  | .changed old new => old ≠ [] ∨ new ≠ []

/-- One of two pieces in a row stands in both lists. -/
def Apart (p q : Piece α) : Prop := p.isSame = true ∨ q.isSame = true

end Piece

/-- No piece is empty, and no two changes follow one another. -/
structure Alternates (ps : List (Piece α)) : Prop where
  inhabited : ∀ p ∈ ps, p.IsInhabited
  apart : ps.IsChain Piece.Apart

theorem Alternates.nil : Alternates ([] : List (Piece α)) := ⟨by simp, by simp⟩

namespace Difference

/-! ## The same pieces joined -/

theorem joinSame_same (xs : List α) (ps : List (Piece α)) :
    (∃ ys rest, joinSame ps = .same ys :: rest ∧ joinSame (.same xs :: ps) = .same (xs ++ ys) :: rest) ∨
      (∀ p ∈ (joinSame ps).head?, p.isSame = false) ∧ joinSame (.same xs :: ps) = .same xs :: joinSame ps := by
  rw [joinSame]
  split
  · rename_i ys rest h
    exact .inl ⟨ys, rest, h, rfl⟩
  · rename_i hne
    refine .inr ⟨fun p hp => ?_, rfl⟩
    cases p with
    | changed => rfl
    | same ys => exact absurd (List.eq_cons_of_mem_head? hp) (hne ys _)

theorem flatMap_joinSame {f : Piece α → List α} (hf : ∀ items, f (.same items) = items) : ∀ ps : List (Piece α),
    (joinSame ps).flatMap f = ps.flatMap f
  | [] => rfl
  | .changed o n :: ps => by
    rw [joinSame, List.flatMap_cons, List.flatMap_cons, flatMap_joinSame hf ps]
    nofun
  | .same xs :: ps => by
    have ih := flatMap_joinSame hf ps
    obtain ⟨ys, rest, hps, hjoin⟩ | ⟨-, hjoin⟩ := joinSame_same xs ps
    · rw [hps, List.flatMap_cons, hf] at ih
      rw [hjoin, List.flatMap_cons, List.flatMap_cons, hf, hf, ← ih, List.append_assoc]
    · rw [hjoin, List.flatMap_cons, List.flatMap_cons, ih]

theorem joinSame_alternates : ∀ {ps : List (Piece α)}, Alternates ps →
    Alternates (joinSame ps) ∧ (joinSame ps).head?.map Piece.isSame = ps.head?.map Piece.isSame
  | [], _ => ⟨.nil, rfl⟩
  | .changed o n :: ps, h => by
    obtain ⟨hp, hps⟩ := List.forall_mem_cons.1 h.inhabited
    obtain ⟨hhead, htail⟩ := List.isChain_cons.1 h.apart
    obtain ⟨ih, ihhead⟩ := joinSame_alternates ⟨hps, htail⟩
    have hjoin : joinSame (.changed o n :: ps) = .changed o n :: joinSame ps := by
      rw [joinSame]
      nofun
    rw [hjoin]
    refine ⟨⟨List.forall_mem_cons.2 ⟨hp, ih.inhabited⟩, List.isChain_cons.2 ⟨fun q hq => .inr ?_, ih.apart⟩⟩, rfl⟩
    -- The piece after a change stood in both lists before, and so it does when it was joined.
    have hq' : some q.isSame = ps.head?.map Piece.isSame := by rw [← ihhead, Option.mem_def.1 hq, Option.map_some]
    obtain ⟨p, hp, hpq⟩ := Option.map_eq_some_iff.1 hq'.symm
    exact hpq ▸ (hhead p hp).resolve_left nofun
  | .same xs :: ps, h => by
    obtain ⟨hp, hps⟩ := List.forall_mem_cons.1 h.inhabited
    obtain ⟨-, htail⟩ := List.isChain_cons.1 h.apart
    obtain ⟨ih, -⟩ := joinSame_alternates ⟨hps, htail⟩
    obtain ⟨ys, rest, hrest, hjoin⟩ | ⟨-, hjoin⟩ := joinSame_same xs ps
    · rw [hrest] at ih
      rw [hjoin]
      refine ⟨⟨List.forall_mem_cons.2 ⟨fun hnil => hp (List.append_eq_nil_iff.1 hnil).1, ?_⟩, ?_⟩, rfl⟩
      · exact (List.forall_mem_cons.1 ih.inhabited).2
      · exact List.isChain_cons.2 ⟨fun _ _ => .inl rfl, (List.isChain_cons.1 ih.apart).2⟩
    · rw [hjoin]
      exact ⟨⟨List.forall_mem_cons.2 ⟨hp, ih.inhabited⟩, List.isChain_cons.2 ⟨fun _ _ => .inl rfl, ih.apart⟩⟩, rfl⟩

/-! ## The pieces -/

theorem flatMap_gap {f : Piece α → List α} (old new : List α) (h : f (.changed [] []) = []) :
    (gap old new).flatMap f = f (.changed old new) := by
  unfold gap
  split
  · rename_i hnil
    simp only [Bool.and_eq_true, List.isEmpty_iff] at hnil
    rw [hnil.1, hnil.2, h, List.flatMap_nil]
  · rw [List.flatMap_singleton]

theorem gap_alternates (old new : List α) : Alternates (gap old new) := by
  unfold gap
  split
  · exact .nil
  · rename_i hne
    refine ⟨fun p hp => ?_, by simp⟩
    rw [List.mem_singleton.1 hp]
    simp only [Bool.and_eq_true, List.isEmpty_iff, not_and_or] at hne
    exact hne

/-- A list is made of what is before a run, the run, and what is after it. -/
theorem take_append_run (xs : List α) (start size : Nat) :
    xs.take start ++ ((xs.drop start).take size ++ xs.drop (start + size)) = xs := by
  rw [← List.drop_drop, List.take_append_drop, List.take_append_drop]

section

variable [DecidableEq α]

theorem pieces_cases (common : α → Bool) (old new : List α) :
    commonRun? common old new = none ∧ pieces common old new = gap old new ∨
      ∃ r : { r : Run // r.IsIn old new }, commonRun? common old new = some r ∧ pieces common old new =
        pieces common (old.take r.1.old) (new.take r.1.new) ++ .same ((old.drop r.1.old).take r.1.size) ::
          pieces common (old.drop (r.1.old + r.1.size)) (new.drop (r.1.new + r.1.size)) := by
  rw [pieces]
  split
  · rename_i h
    exact .inl ⟨h, rfl⟩
  · rename_i r hr h
    exact .inr ⟨⟨r, hr⟩, h, rfl⟩

theorem flatMap_old_pieces (common : α → Bool) (old new : List α) : (pieces common old new).flatMap Piece.old = old := by
  fun_induction pieces common old new with
  | case1 old new _ => exact flatMap_gap old new rfl
  | case2 old new r _ _ ihl ihr =>
    rw [List.flatMap_append, List.flatMap_cons, ihl, ihr]
    exact take_append_run old r.old r.size

theorem flatMap_new_pieces (common : α → Bool) (old new : List α) : (pieces common old new).flatMap Piece.new = new := by
  fun_induction pieces common old new with
  | case1 old new _ => exact flatMap_gap old new rfl
  | case2 old new r h _ ihl ihr =>
    rw [List.flatMap_append, List.flatMap_cons, ihl, ihr, Piece.new, h.2.2]
    exact take_append_run new r.new r.size

theorem pieces_alternates (common : α → Bool) (old new : List α) : Alternates (pieces common old new) := by
  fun_induction pieces common old new with
  | case1 old new _ => exact gap_alternates old new
  | case2 old new r h _ ihl ihr =>
    constructor
    · intro p hp
      rcases List.mem_append.1 hp with hp | hp
      · exact ihl.inhabited p hp
      · rcases List.mem_cons.1 hp with rfl | hp
        · obtain ⟨hsize, hlength, -⟩ := h
          intro hnil
          have := congrArg List.length hnil
          rw [List.length_take, List.length_drop, List.length_nil] at this
          omega
        · exact ihr.inhabited p hp
    · refine List.isChain_append.2 ⟨ihl.apart, List.isChain_cons.2 ⟨fun _ _ => .inl rfl, ihr.apart⟩, ?_⟩
      intro p _ q hq
      cases hq
      exact .inr rfl

/-! ## Equal lists -/

variable (common : α → Bool) (l : List α)

/-- How many items of a list before the one place are those before the other, none of them too common. -/
def runSize : Nat → Nat → Nat
  | i + 1, j + 1 => if l[i]? = l[j]? ∧ l[i]?.any (fun x => !common x) then runSize i j + 1 else 0
  | _, _ => 0

theorem runSize_zero (i : Nat) : runSize common l i 0 = 0 := by cases i <;> rfl

theorem runSize_comm : ∀ i j, runSize common l i j = runSize common l j i
  | 0, j => by rw [runSize_zero]; rfl
  | i + 1, 0 => rfl
  | i + 1, j + 1 => by
    rw [runSize, runSize, runSize_comm i j]
    by_cases h : l[i]? = l[j]?
    · rw [h]
    · rw [if_neg fun hi => h hi.1, if_neg fun hj => h hj.1.symm]

theorem runSize_le_self : ∀ i j, runSize common l i j ≤ runSize common l i i
  | 0, j => by cases j <;> exact Nat.zero_le _
  | i + 1, 0 => Nat.zero_le _
  | i + 1, j + 1 => by
    rw [runSize, runSize]
    split
    · rename_i h
      rw [if_pos ⟨rfl, h.2⟩]
      exact Nat.succ_le_succ (runSize_le_self i j)
    · exact Nat.zero_le _

theorem runSize_le : ∀ i j, runSize common l i j ≤ i
  | 0, j => by cases j <;> exact Nat.zero_le _
  | i + 1, 0 => Nat.zero_le _
  | i + 1, j + 1 => by
    rw [runSize]
    split
    · exact Nat.succ_le_succ (runSize_le i j)
    · exact Nat.zero_le _

/-- The sizes of the runs that end at one place and at each place from the other on. -/
def sizesFrom (i j : Nat) (row : List α) : List Nat := (List.range' (j + 1) row.length).map (runSize common l i)

theorem sizesFrom_cons (i j : Nat) (y : α) (row : List α) :
    sizesFrom common l i j (y :: row) = runSize common l i (j + 1) :: sizesFrom common l i (j + 1) row := by
  rw [sizesFrom, List.length_cons, List.range'_succ]
  rfl

variable {common l}

theorem nextRow_sizes {i : Nat} {x : α} (hx : l[i]? = some x) (hcommon : common x = false) : ∀ (j : Nat) (row : List α),
    l.drop j = row → nextRow x (runSize common l i j) row (sizesFrom common l i j row) = sizesFrom common l (i + 1) j row
  | j, [], _ => rfl
  | j, y :: row, h => by
    have hy : l[j]? = some y := by rw [← Nat.add_zero j, ← List.getElem?_drop, h]; rfl
    have hrest : l.drop (j + 1) = row := by rw [← List.drop_drop, h, List.drop_succ_cons, List.drop_zero]
    rw [sizesFrom_cons, sizesFrom_cons, nextRow, nextRow_sizes hx hcommon (j + 1) row hrest, runSize]
    simp [hx, hy, hcommon, eq_comm]

theorem zero_sizes {i : Nat} {x : α} (hx : l[i]? = some x) (hcommon : common x = true) (j : Nat) (row : List α) :
    sizesFrom common l (i + 1) j row = (sizesFrom common l i j row).map fun _ => 0 := by
  unfold sizesFrom
  rw [List.map_map]
  refine List.map_congr_left fun k hk => ?_
  obtain ⟨k, rfl⟩ := Nat.exists_eq_add_of_lt (List.mem_range'_1.1 hk).1
  simp [runSize, hx, hcommon]

/-- The best run so far lies on the diagonal and is as long as every run that was met. -/
structure BestSoFar (common : α → Bool) (l : List α) (i j : Nat) (best : Run) : Prop where
  diagonal : best.old = best.new
  within : best.old + best.size ≤ l.length
  rows : ∀ a < i, ∀ b < l.length, runSize common l (a + 1) (b + 1) ≤ best.size
  row : ∀ b < j, runSize common l (i + 1) (b + 1) ≤ best.size

theorem bestOfRow_sizes {i : Nat} (hi : i < l.length) : ∀ {j : Nat} {row : List α} {best : Run}, l.drop j = row →
    BestSoFar common l i j best → BestSoFar common l (i + 1) 0 (bestOfRow i j best (sizesFrom common l (i + 1) j row))
  | j, [], best, h, hbest => by
    have hj : l.length ≤ j := List.drop_eq_nil_iff.1 h
    refine ⟨hbest.diagonal, hbest.within, fun a ha b hb => ?_, fun b hb => absurd hb (Nat.not_lt_zero b)⟩
    rcases Nat.lt_succ_iff_lt_or_eq.1 ha with ha | rfl
    · exact hbest.rows a ha b hb
    · exact hbest.row b (by omega)
  | j, y :: row, best, h, hbest => by
    have hrest : l.drop (j + 1) = row := by rw [← List.drop_drop, h, List.drop_succ_cons, List.drop_zero]
    rw [sizesFrom_cons, bestOfRow]
    refine bestOfRow_sizes hi hrest ?_
    split
    · rename_i hlonger
      -- A longer run is on the diagonal: elsewhere its mirror image, or the diagonal, was met before.
      obtain rfl : j = i := by
        rcases Nat.lt_trichotomy j i with hj | hj | hj
        · have := hbest.rows j hj i hi
          rw [runSize_comm] at this
          omega
        · exact hj
        · have := hbest.row i hj
          have := runSize_le_self common l (i + 1) (j + 1)
          omega
      have hsize := runSize_le common l (j + 1) (j + 1)
      refine ⟨rfl, by dsimp only; omega, fun a ha b hb => ?_, fun b hb => ?_⟩
      · exact Nat.le_of_lt (Nat.lt_of_le_of_lt (hbest.rows a ha b hb) hlonger)
      · rcases Nat.lt_succ_iff_lt_or_eq.1 hb with hb | rfl
        · exact Nat.le_of_lt (Nat.lt_of_le_of_lt (hbest.row b hb) hlonger)
        · exact Nat.le_refl _
    · rename_i hlonger
      refine ⟨hbest.diagonal, hbest.within, hbest.rows, fun b hb => ?_⟩
      rcases Nat.lt_succ_iff_lt_or_eq.1 hb with hb | rfl
      · exact hbest.row b hb
      · exact Nat.le_of_not_lt hlonger

theorem longestFrom_sizes : ∀ {i : Nat} {rest : List α} {best : Run}, l.drop i = rest → BestSoFar common l i 0 best →
    ∃ k, BestSoFar common l k 0 (longestFrom common l i (sizesFrom common l i 0 l) best rest)
  | i, [], best, _, hbest => ⟨i, hbest⟩
  | i, x :: rest, best, h, hbest => by
    have hx : l[i]? = some x := by rw [← Nat.add_zero i, ← List.getElem?_drop, h]; rfl
    have hi : i < l.length := (List.getElem?_eq_some_iff.1 hx).1
    have hrest : l.drop (i + 1) = rest := by rw [← List.drop_drop, h, List.drop_succ_cons, List.drop_zero]
    have hrow : (if common x then (sizesFrom common l i 0 l).map fun _ => 0 else nextRow x 0 l (sizesFrom common l i 0 l)) =
        sizesFrom common l (i + 1) 0 l := by
      cases hcommon : common x with
      | true => exact (zero_sizes hx hcommon 0 l).symm
      | false =>
        have := nextRow_sizes hx hcommon 0 l rfl
        rw [runSize_zero] at this
        exact this
    rw [longestFrom]
    simp only [hrow]
    exact longestFrom_sizes hrest (bestOfRow_sizes hi rfl hbest)

theorem commonStart_self : ∀ xs : List α, commonStart xs xs = xs.length
  | [] => rfl
  | x :: xs => by rw [commonStart, if_pos rfl, commonStart_self xs, List.length_cons]

/-- A run on the diagonal is prolonged to the whole list. -/
theorem prolong_self {r : Run} (hdiagonal : r.old = r.new) (hwithin : r.old + r.size ≤ l.length) :
    r.prolong l l = ⟨0, 0, l.length⟩ := by
  unfold Run.prolong
  rw [← hdiagonal, commonStart_self, commonStart_self, List.length_reverse, List.length_take, List.length_drop]
  simp only [Run.mk.injEq]
  omega

theorem longestRun_self (common : α → Bool) (l : List α) : longestRun common l l = ⟨0, 0, l.length⟩ := by
  have hzero : l.map (fun _ => 0) = sizesFrom common l 0 0 l := by
    refine List.ext_getElem (by simp [sizesFrom]) fun k hk hk' => ?_
    simp [sizesFrom, runSize]
  have hstart : BestSoFar common l 0 0 ⟨0, 0, 0⟩ :=
    ⟨rfl, Nat.zero_le _, fun a ha => absurd ha (Nat.not_lt_zero a), fun b hb => absurd hb (Nat.not_lt_zero b)⟩
  obtain ⟨k, hbest⟩ := longestFrom_sizes (i := 0) rfl hstart
  rw [longestRun, hzero]
  exact prolong_self hbest.diagonal hbest.within

theorem pieces_nil (common : α → Bool) : pieces common ([] : List α) [] = [] := by
  obtain ⟨-, h⟩ | ⟨⟨r, hr⟩, -, -⟩ := pieces_cases common ([] : List α) []
  · exact h
  · obtain ⟨hsize, hlength, -⟩ := hr
    rw [List.length_nil] at hlength
    omega

theorem pieces_self (common : α → Bool) {l : List α} (hl : l ≠ []) : pieces common l l = [.same l] := by
  have hin : (longestRun common l l).IsIn l l := by
    rw [longestRun_self]
    exact ⟨List.length_pos_iff.2 hl, Nat.le_of_eq (Nat.zero_add _), rfl⟩
  obtain ⟨h, -⟩ | ⟨r, h, hpieces⟩ := pieces_cases common l l
  · rw [commonRun?, dif_pos hin] at h
    cases h
  · rw [commonRun?, dif_pos hin, Option.some_inj] at h
    rw [hpieces, ← h]
    simp only [longestRun_self, List.take_zero, List.drop_zero, List.take_length, Nat.zero_add, List.drop_length,
      pieces_nil, List.nil_append]

end

end Difference

/-! ## The difference -/

open Difference

variable [DecidableEq α]

/-- **The pieces of a difference make up the old list** … -/
theorem flatMap_old_difference (old new : List α) : (difference old new).flatMap Piece.old = old :=
  (flatMap_joinSame (fun _ => rfl) _).trans (flatMap_old_pieces _ old new)

/-- … **and the new one.** -/
theorem flatMap_new_difference (old new : List α) : (difference old new).flatMap Piece.new = new :=
  (flatMap_joinSame (fun _ => rfl) _).trans (flatMap_new_pieces _ old new)

theorem difference_alternates (old new : List α) : Alternates (difference old new) :=
  (joinSame_alternates (pieces_alternates _ old new)).1

/-- **Equal lists have no change.** -/
theorem difference_self (l : List α) : difference l l = [] ∨ difference l l = [.same l] := by
  by_cases hl : l = []
  · subst hl
    rw [difference, pieces_nil]
    exact .inl rfl
  · rw [difference, pieces_self _ hl]
    exact .inr rfl

end ApiRoutes
