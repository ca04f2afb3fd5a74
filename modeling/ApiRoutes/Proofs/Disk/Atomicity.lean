import ApiRoutes.Proofs.Disk.Trees
/-!
# Atomic writes

A file that is written atomically is there as a whole or not at all (`writeAtomically_ends`): when the writing fails,
at whatever step, all that there was is as before and at most folders above the file are new; when it succeeds, its
place has exactly the bytes of the text, and nothing else has changed, come or gone.
-/
namespace ApiRoutes
namespace Disk

variable {d d' : Disk} {p : Path} {P : Location → Prop}

/-- The place is on the way to the folder that a path is in, or that of the folder. -/
def IsAbove (d : Disk) (p : Path) (m : Location) : Prop := ∃ k, m = d.place ⟨p.root, p.parent.names.take k⟩

/-- At the places that satisfy `P` the second disk has what the first one has, and beyond that only folders above a
path. -/
structure AddsAbove (p : Path) (P : Location → Prop) (d d' : Disk) : Prop where
  here : d'.here = d.here
  items : ∀ m, P m → d'.item? m = d.item? m ∨ d.item? m = none ∧ d'.item? m = some .folder ∧ IsAbove d p m

theorem AddsAbove.of_folders (hadds : AddsFolders d d') (hsame : SameItems (¬ IsAbove d p ·) d d') :
    AddsAbove p P d d' where
  here := hadds.here
  items m _ := by
    obtain hm | ⟨hfree, hfolder⟩ := hadds.items m
    · exact .inl hm
    · by_cases habove : IsAbove d p m
      · exact .inr ⟨hfree, hfolder, habove⟩
      · exact .inl (hsame.items m habove)

/-- A change at the other places only. -/
theorem AddsAbove.congr {d₁ : Disk} (h : AddsAbove p P d d₁) (here : d'.here = d₁.here)
    (hitems : ∀ m, P m → d'.item? m = d₁.item? m) : AddsAbove p P d d' where
  here := here.trans h.here
  items m hm := by
    rw [hitems m hm]
    exact h.items m hm

theorem parents_items (d : Disk) (p : Path) : (ensureFolders p.parent).MovesFrom (SameItems (¬ IsAbove d p ·)) d :=
  ensureFolders_items fun k _ hm heq => hm ⟨k, heq⟩

theorem parents_adds {u : Unit} (h : (ensureFolders p.parent).Takes d u d') : AddsAbove p P d d' :=
  .of_folders (h.moves (ensureFolders_adds _)) (h.movesFrom (parents_items d p))

theorem writeAtomically_fails_above {t : Text} {x : Failure} (h : (writeAtomically p t).Fails d x d') :
    AddsAbove p P d d' :=
  .of_folders (writeAtomically_fails h)
    (writeAtomically_fails_moves (parents_items d p) (fun here hitems => ⟨here, fun m _ => hitems m⟩) h)

theorem writeAtomically_takes_above {t : Text} {u : Unit} (h : (writeAtomically p t).Takes d u d') :
    d.item? (d.place p) ≠ some .folder ∧ AddsAbove p (· ≠ d.place p) d d' := by
  obtain ⟨d₁, bytes, hfolders, -, -, hbefore, hhere, hafter⟩ := writeAtomically_steps h
  have hgrows := hfolders.moves (ensureFolders_grows p.parent)
  refine ⟨fun hfolder => hbefore (hgrows.items _ _ hfolder), (parents_adds hfolders).congr hhere fun m hm => ?_⟩
  rw [hafter, if_neg hm]

theorem writeAtomically_readBytes {t : Text} {u : Unit} (h : (writeAtomically p t).Takes d u d') :
    ∃ bytes, t.toUtf8? = some bytes ∧ d'.readBytes p = .ok bytes := by
  obtain ⟨bytes, hbytes, hfind, hitem, -⟩ := writeAtomically_takes h
  refine ⟨bytes, hbytes, ?_⟩
  rw [readBytes, hfind]
  simp only [bind, Except.bind, hitem]

end Disk
end ApiRoutes
