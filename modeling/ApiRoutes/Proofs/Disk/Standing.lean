import ApiRoutes.Proofs.Disk.Files
/-!
# What stays in its place

A change can put another file in the place of a file, but it empties no place and makes no file of a folder, nor a
folder of a file (`Disk.Remains`).  So a path that leads to something still does (`Disk.Stands`, `Stands.holds`).
-/
namespace ApiRoutes
namespace Disk

variable {d d' : Disk} {p : Path}

/-- Nothing that there is goes: folders stay folders, and files stay files, whatever they say. -/
structure Remains (d d' : Disk) : Prop where
  here : d'.here = d.here
  files : ∀ m bytes, d.item? m = some (.file bytes) → ∃ bytes', d'.item? m = some (.file bytes')
  folders : ∀ m, d.item? m = some .folder → d'.item? m = some .folder

instance : IsPreorder Disk Remains where
  refl _ := ⟨rfl, fun _ bytes h => ⟨bytes, h⟩, fun _ h => h⟩
  trans _ _ _ h h' := ⟨h'.here.trans h.here, fun m bytes hm => by
    obtain ⟨bytes', hm'⟩ := h.files m bytes hm
    exact h'.files m bytes' hm', fun m hm => h'.folders m (h.folders m hm)⟩

/-- Where the first disk has something the second one has something, and folders stay folders. -/
structure Stands (d d' : Disk) : Prop where
  here : d'.here = d.here
  items : ∀ m, d.item? m ≠ none → d'.item? m ≠ none
  folders : ∀ m, d.item? m = some .folder → d'.item? m = some .folder

instance : IsPreorder Disk Stands where
  refl _ := ⟨rfl, fun _ h => h, fun _ h => h⟩
  trans _ _ _ h h' := ⟨h'.here.trans h.here, fun m hm => h'.items m (h.items m hm), fun m hm => h'.folders m (h.folders m hm)⟩

namespace Stands

theorem trans {d'' : Disk} (h : Stands d d') (h' : Stands d' d'') : Stands d d'' := trans_of _ h h'

/-- A path that leads to something still does. -/
theorem holds (h : Stands d d') (hp : d.holds p = .ok true) : d'.holds p = .ok true := by
  unfold Disk.holds at hp ⊢
  unfold at? at hp ⊢
  cases hc : p.check with
  | error f =>
    rw [hc] at hp
    cases hp
  | ok u =>
    rw [hc] at hp
    cases hl : d.locate p with
    | ok l =>
      rw [hl] at hp
      rw [locate_mono h.here h.folders hl]
      have hsome : (d.item? l).isSome = true := Except.ok.inj hp
      have hstill := h.items l (Option.isSome_iff_ne_none.1 hsome)
      exact congrArg Except.ok (Option.isSome_iff_ne_none.2 hstill)
    | error f =>
      rw [hl] at hp
      cases f <;> cases hp

end Stands

theorem Remains.stands (h : Remains d d') : Stands d d' where
  here := h.here
  items m hm := by
    obtain ⟨i, hi⟩ := Option.ne_none_iff_exists'.1 hm
    cases i with
    | file bytes =>
      obtain ⟨bytes', hfile⟩ := h.files m bytes hi
      rw [hfile]
      exact Option.some_ne_none _
    | folder =>
      rw [h.folders m hi]
      exact Option.some_ne_none _
  folders := h.folders

/-! ## What keeps its place -/

theorem Grows.remains (h : Grows d d') : Remains d d' :=
  ⟨h.here, fun m bytes hm => ⟨bytes, h.items m _ hm⟩, fun m hm => h.items m _ hm⟩

theorem ensureFolders_remains (p : Path) : (ensureFolders p).Moves Remains := fun d l => (ensureFolders_grows p d l).remains

/-- A file in a place where there is no folder. -/
theorem remains_of_file {l : Location} {bytes : List UInt8} (hl : d.item? l ≠ some .folder) (here : d'.here = d.here)
    (h : ∀ m, d'.item? m = if m = l then some (.file bytes) else d.item? m) : Remains d d' where
  here := here
  files m old hm := by
    rw [h]
    split
    · exact ⟨bytes, rfl⟩
    · exact ⟨old, hm⟩
  folders m hm := by
    rw [h, if_neg fun heq : m = l => hl (heq ▸ hm), hm]

theorem writeAtomically_remains (p : Path) (t : Text) : (writeAtomically p t).Moves Remains := fun d =>
  .of_ends (fun _ _ ht => by
    obtain ⟨d₁, bytes, hfolders, -, -, hbefore, hhere, hafter⟩ := writeAtomically_steps ht
    exact trans_of Remains (hfolders.moves (ensureFolders_remains _)) (remains_of_file hbefore hhere hafter))
  fun _ _ hf => (writeAtomically_fails hf).grows.remains

theorem writeFile_remains (p : Path) (t : Text) : (writeFile p t).Moves Remains := fun d =>
  .of_ends (fun _ _ ht => by
    obtain ⟨bytes, -, -, hfolder, rfl⟩ := writeFile_takes ht
    refine @remains_of_file _ _ _ bytes hfolder rfl fun m => ?_
    rw [item?_put]
    split
    · rename_i hhere
      rw [if_neg fun heq : m = d.place p => hfolder (heq ▸ item?_of_here hhere), item?_of_here hhere]
    · simp only [eq_comm])
  fun _ _ hf => by
    rw [writeFile_fails hf]
    exact refl_of _ _

theorem ensureFolders_stands (p : Path) : (ensureFolders p).Moves Stands := fun d l => (ensureFolders_remains p d l).stands

theorem writeAtomically_stands (p : Path) (t : Text) : (writeAtomically p t).Moves Stands := fun d l =>
  (writeAtomically_remains p t d l).stands

theorem writeFile_stands (p : Path) (t : Text) : (writeFile p t).Moves Stands := fun d l => (writeFile_remains p t d l).stands

end Disk
end ApiRoutes
