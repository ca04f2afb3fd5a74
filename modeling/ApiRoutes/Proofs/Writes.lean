import Mathlib.Data.List.Induction
/-!
# Writing twice

Writes to places of a state, some of them to the same place.  A write to a place that is not there
makes it, so the order of writes matters; all the same, a sequence of writes that is carried out again
changes nothing (`Writes.foldl_foldl`).
-/
namespace ApiRoutes

/-- The laws of writes `W` to places `L` of states `S`. -/
structure Writes {W S L : Type} (put : W → S → S) (place : W → L) (present : L → S → Prop) :
    Prop where
  /-- Of two writes to a place the second stays. -/
  overwrite : ∀ u w s, place u = place w → put u (put w s) = put u s
  /-- A write to a place that is there can be made before or after a write to another place. -/
  commute : ∀ u w s, place u ≠ place w → present (place u) s → put u (put w s) = put w (put u s)
  /-- A place that is written to is there. -/
  written : ∀ w s, present (place w) (put w s)
  /-- No write removes a place. -/
  stays : ∀ l w s, present l s → present l (put w s)

namespace Writes

variable {W S L : Type} {put : W → S → S} {place : W → L} {present : L → S → Prop}

theorem stays_foldl (laws : Writes put place present) {l : L} : ∀ {ws : List W} {s : S},
    present l s → present l (ws.foldl (fun s w => put w s) s)
  | [], _, h => h
  | w :: ws, s, h => by
    rw [List.foldl_cons]
    exact laws.stays_foldl (laws.stays l w s h)

theorem written_foldl (laws : Writes put place present) {l : L} : ∀ {ws : List W} {s : S},
    l ∈ ws.map place → present l (ws.foldl (fun s w => put w s) s)
  | w :: ws, s, h => by
    rw [List.map_cons, List.mem_cons] at h
    rw [List.foldl_cons]
    obtain rfl | h := h
    · exact laws.stays_foldl (laws.written w s)
    · exact laws.written_foldl h

/-- A write to a place that is there leaves no trace when the place is written to later. -/
theorem foldl_absorb (laws : Writes put place present) {w : W} : ∀ {ws : List W} {s : S},
    place w ∈ ws.map place → present (place w) s →
      ws.foldl (fun s w => put w s) (put w s) = ws.foldl (fun s w => put w s) s
  | u :: ws, s, h, hs => by
    rw [List.foldl_cons, List.foldl_cons]
    by_cases hu : place u = place w
    · rw [laws.overwrite u w s hu]
    · rw [List.map_cons, List.mem_cons, eq_comm, or_iff_right hu] at h
      rw [← laws.commute w u s (Ne.symm hu) hs, laws.foldl_absorb h (laws.stays _ _ _ hs)]

/-- A write to another place can be made before or after writes to places that are there. -/
theorem foldl_commute (laws : Writes put place present) {w : W} : ∀ {ws : List W} {s : S},
    place w ∉ ws.map place → (∀ u ∈ ws, present (place u) s) →
      ws.foldl (fun s w => put w s) (put w s) = put w (ws.foldl (fun s w => put w s) s)
  | [], _, _, _ => rfl
  | u :: ws, s, h, hs => by
    rw [List.map_cons, List.mem_cons, not_or] at h
    rw [List.foldl_cons, List.foldl_cons, laws.commute u w s (Ne.symm h.1) (hs u List.mem_cons_self),
      laws.foldl_commute h.2 fun v hv => laws.stays _ _ _ (hs v (List.mem_cons_of_mem u hv))]

/-- **Writing a second time changes nothing.** -/
theorem foldl_foldl (laws : Writes put place present) (ws : List W) (s : S) :
    ws.foldl (fun s w => put w s) (ws.foldl (fun s w => put w s) s) =
      ws.foldl (fun s w => put w s) s := by
  -- The induction is from the end: the last write either comes to a place that was written to
  -- before, and is absorbed, or to one of its own.
  induction ws using List.reverseRecOn with
  | nil => rfl
  | append_singleton ws w ih =>
    rw [List.foldl_append, List.foldl_append]
    simp only [List.foldl_cons, List.foldl_nil]
    by_cases hw : place w ∈ ws.map place
    · rw [laws.foldl_absorb hw (laws.written_foldl hw), ih]
    · rw [laws.foldl_commute hw fun u hu => laws.written_foldl (List.mem_map_of_mem hu), ih,
        laws.overwrite w w _ rfl]

end Writes

end ApiRoutes
