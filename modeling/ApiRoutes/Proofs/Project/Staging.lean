import ApiRoutes.Proofs.Disk.Trees
import ApiRoutes.Proofs.Project.Preparation
/-!
# Staging and registering

What the two changes of a preparation find on the disk is a function of it (`stagedFile`, `registered`),
in a dry run and in a real one; a real run makes what was missing, and keeps folders and files at other
places (`Disk.KeepsAt`).
-/
namespace ApiRoutes

namespace Disk

variable {P Q : Location → Prop} {d d' : Disk} {p : Path}

/-- The second disk has the folders of the first one, and the same files at the places that satisfy
`P`. -/
structure KeepsAt (P : Location → Prop) (d d' : Disk) : Prop extends SameFiles P d d' where
  folders : ∀ m, d.item? m = some .folder → d'.item? m = some .folder

instance : IsPreorder Disk (KeepsAt P) where
  refl d := ⟨.refl P d, fun _ h => h⟩
  trans _ _ _ h h' := ⟨h.toSameFiles.trans h'.toSameFiles, fun m hm => h'.folders m (h.folders m hm)⟩

namespace KeepsAt

theorem refl (P : Location → Prop) (d : Disk) : KeepsAt P d d := refl_of _ d

theorem trans {d'' : Disk} (h : KeepsAt P d d') (h' : KeepsAt P d' d'') : KeepsAt P d d'' := trans_of _ h h'

theorem mono (h : KeepsAt P d d') (hQ : ∀ m, Q m → P m) : KeepsAt Q d d' := ⟨h.toSameFiles.mono hQ, h.folders⟩

/-- What is read by a straight path to a place that is kept could have been read before. -/
theorem readText? {v : Option Text} (h : KeepsAt P d d') (htree : d.IsTree) (hs : d.straight p = true)
    (hp : P (d.place p)) (hv : d'.readText? p = .ok v) : d.readText? p = .ok v :=
  readText?_before htree hs h.here h.folders (h.files _ hp) hv

end KeepsAt

theorem AddsFolders.keepsAt (h : AddsFolders d d') : KeepsAt P d d' :=
  ⟨h.sameFiles, fun m hm => h.grows.items m .folder hm⟩

theorem writeAtomically_keepsAt {t : Text} {u : Unit} (h : (writeAtomically p t).Takes d u d') :
    KeepsAt (· ≠ d.place p) d d' := by
  obtain ⟨-, -, -, -, hkeeps⟩ := writeAtomically_takes h
  exact ⟨writeAtomically_changes h, hkeeps.folders⟩

theorem writeFile_keepsAt {t : Text} {u : Unit} (h : (writeFile p t).Takes d u d') : KeepsAt (· ≠ d.place p) d d' := by
  obtain ⟨bytes, -, -, hfolder, hd'⟩ := writeFile_takes h
  refine ⟨h.movesFrom (writeFile_files fun m hm => hm), fun m hm => ?_⟩
  rw [hd', item?_put]
  split
  · rfl
  · rw [if_neg fun heq : d.place p = m => hfolder (heq ▸ hm), hm]

end Disk

namespace Project

open Disk

/-! ## The skeleton -/

/-- The path of a skeleton file that is missing. -/
def stagedFile (target : Path) (path : Text) (disk : Disk) : Outcome (Option Text) := do
  let held ← disk.holds (target.child path)
  return if held then none else some path

theorem stageFile_looks (target : Path) (path content : Text) :
    Edit.Looks (stagedFile target path) (stageFile target true path content) := by
  unfold stageFile
  refine (Edit.Looks.ask _).bind fun b => ?_
  cases b <;> exact Edit.Looks.pure _

/-- What staging a file does to a disk, when the file is missing. -/
structure Creates (p : Path) (content : Text) (d d' : Disk) : Prop where
  folders : ∃ d₁, (ensureFolders p.parent).Takes d () d₁ ∧ KeepsAt (· ≠ d.place p) d₁ d' ∧ d'.here = d₁.here ∧
    ∀ m, m ≠ d.place p → d'.item? m = d₁.item? m
  file : ∃ bytes, content.toUtf8? = some bytes ∧ d'.item? (d.place p) = some (.file bytes)
  checked : p.check = .ok ()
  found : d'.find p = .ok (d.place p)

theorem stageFile_takes {target : Path} {path content : Text} {d d' : Disk} {o : Option Text}
    (h : (stageFile target false path content).Takes d o d') : stagedFile target path d = .ok o ∧
      (o = none ∧ d' = d ∨ o = some path ∧ Creates (target.child path) content d d') := by
  unfold stageFile at h
  obtain ⟨b, hb, h₁⟩ := Edit.Takes.of_ask_bind h
  unfold stagedFile
  rw [hb]
  cases b with
  | true =>
    obtain ⟨rfl, rfl⟩ := h₁.eq_of_pure
    exact ⟨rfl, .inl ⟨rfl, rfl⟩⟩
  | false =>
    obtain ⟨u, d₁, hfolders, h₂⟩ := Edit.Takes.of_bind h₁
    obtain ⟨u₂, d₂, hwrite, h₃⟩ := Edit.Takes.of_bind h₂
    obtain ⟨rfl, rfl⟩ := (Edit.Takes.of_log_bind h₃).eq_of_pure
    have hplace := (hfolders.moves (ensureFolders_adds _)).grows.here
    have hkeeps := writeFile_keepsAt hwrite
    obtain ⟨bytes, hbytes, hfind, hfolder, hd'⟩ := writeFile_takes hwrite
    rw [place_congr hplace] at hkeeps hfind hfolder hd'
    refine ⟨rfl, .inr ⟨rfl, ⟨d₁, hfolders, hkeeps, by rw [hd']; rfl, fun m hm => ?_⟩, ⟨bytes, hbytes, ?_⟩,
      (find_ok hfind).1, ?_⟩⟩
    · rw [hd', item?_put, if_neg (Ne.symm hm)]
      split
      · rename_i hhere
        exact (item?_of_here hhere).symm
      · rfl
    · rw [hd', item?_put, if_neg, if_pos rfl]
      exact not_here_of_item? hfolder
    · refine find_of_locate (find_ok hfind).1 (locate_mono ?_ hkeeps.folders (find_ok hfind).2)
      rw [hd']
      rfl

theorem Creates.keepsAt {p : Path} {content : Text} {d d' : Disk} (h : Creates p content d d') :
    KeepsAt (· ≠ d.place p) d d' := by
  obtain ⟨d₁, hfolders, hkeeps, -, -⟩ := h.folders
  exact (hfolders.moves (ensureFolders_adds _)).keepsAt.trans hkeeps

theorem stageSkeleton_eq (target : Path) (tag : Text) (dryRun : Bool) :
    stageSkeleton target tag dryRun = (do
      let a ← stageFile target dryRun (versionFile tag "index.js") (textOfLines versionIndexLines)
      let b ← stageFile target dryRun "src/index.js" (textOfLines bootstrapLines)
      return [a, b].filterMap id) := by
  unfold stageSkeleton skeletonFiles
  simp only [List.mapM_cons, List.mapM_nil, bind_assoc, pure_bind, pathFor_index, pathFor_bootstrap]

/-- The paths of the skeleton files that are missing. -/
def missingFiles (target : Path) (tag : Text) (disk : Disk) : Outcome (List Text) := do
  let a ← stagedFile target (versionFile tag "index.js") disk
  let b ← stagedFile target "src/index.js" disk
  return [a, b].filterMap id

theorem stageSkeleton_looks (target : Path) (tag : Text) :
    Edit.Looks (missingFiles target tag) (stageSkeleton target tag true) := by
  rw [stageSkeleton_eq]
  exact (stageFile_looks _ _ _).bind fun _ => (stageFile_looks _ _ _).bind fun _ => Edit.Looks.pure _

/-! ## The bootstrap module -/

/-- The bootstrap module as it is, and the text that a version is registered in. -/
def bootstrapOf (s : Settings) (tag : Text) (staged : List Text) (disk : Disk) : Outcome (Option Text × Option Text) := do
  let previous ← disk.readText? s.bootstrapPath
  if previous.isNone && staged.contains s.bootstrapFile then
    return (previous, skeletonText? s.bootstrapFile tag)
  else return (previous, previous)

theorem bootstrapOf_of_read {s : Settings} {tag : Text} {staged : List Text} {disk : Disk} {v : Option Text}
    (h : disk.readText? s.bootstrapPath = .ok v) :
    bootstrapOf s tag staged disk = .ok (v, if v.isNone && staged.contains s.bootstrapFile then
      skeletonText? s.bootstrapFile tag else v) := by
  unfold bootstrapOf
  rw [h]
  simp only [bind, Except.bind, pure, Except.pure]
  split <;> rfl

/-- The bootstrap module with a version registered; nothing when it is missing or stays as it is. -/
def registered (s : Settings) (tag : Text) (staged : List Text) (disk : Disk) : Outcome (Option GeneratedFile) := do
  let found ← bootstrapOf s tag staged disk
  match found.2 with
  | none => return none
  | some text =>
    let patched ← (patchBootstrap s.wiring tag text (some s.bootstrapFile)).2
    return patched.map fun t => ⟨s.bootstrapFile, t, found.1⟩

theorem bootstrapText_looks (s : Settings) (tag : Text) (staged : List Text) :
    Edit.Looks (bootstrapOf s tag staged) (bootstrapText s tag staged) := by
  refine (Edit.Looks.ask _).bind fun previous => ?_
  split <;> exact Edit.Looks.pure _

theorem registerVersion_looks (s : Settings) (tag : Text) (staged : List Text) :
    Edit.Looks (registered s tag staged) (registerVersion s tag true staged) := by
  refine (bootstrapText_looks s tag staged).bind fun found => ?_
  obtain ⟨previous, text⟩ := found
  cases text with
  | none => exact Edit.Looks.log_bind _ _ (Edit.Looks.pure _)
  | some text =>
    refine (Edit.Looks.ofLogged _).bind fun patched => ?_
    cases patched <;> exact Edit.Looks.pure _

theorem registerVersion_takes {s : Settings} {tag : Text} {staged : List Text} {d d' : Disk} {b : Option GeneratedFile}
    (h : (registerVersion s tag false staged).Takes d b d') : registered s tag staged d = .ok b ∧
      (b = none ∧ d' = d ∨ ∃ f, b = some f ∧ (writeAtomically s.bootstrapPath f.content).Takes d () d') := by
  unfold registerVersion at h
  obtain ⟨found, hfound, h₁⟩ := Edit.Takes.of_same_bind (bootstrapText_same s tag staged) h
  obtain ⟨hfound, -⟩ := (bootstrapText_looks s tag staged).takes hfound
  unfold registered
  rw [hfound]
  obtain ⟨previous, text⟩ := found
  cases text with
  | none =>
    obtain ⟨rfl, rfl⟩ := (Edit.Takes.of_log_bind h₁).eq_of_pure
    exact ⟨rfl, .inl ⟨rfl, rfl⟩⟩
  | some text =>
    obtain ⟨patched, hpatched, h₂⟩ := Edit.Takes.of_same_bind (Edit.Moves.ofLogged _) h₁
    obtain ⟨hpatched, -⟩ := Edit.Takes.of_ofLogged hpatched
    simp only [bind, Except.bind, hpatched]
    cases patched with
    | none =>
      obtain ⟨rfl, rfl⟩ := h₂.eq_of_pure
      exact ⟨rfl, .inl ⟨rfl, rfl⟩⟩
    | some patched =>
      obtain ⟨u, d₁, hwrite, h₃⟩ := Edit.Takes.of_bind h₂
      obtain ⟨rfl, rfl⟩ := h₃.eq_of_pure
      exact ⟨rfl, .inr ⟨_, rfl, hwrite⟩⟩

/-! ## Dry runs -/

/-- The report of a dry run. -/
def preview (d : Spec.ApiDocument) (s : Settings) (disk : Disk) : Outcome Report := do
  let staged ← missingFiles s.target d.tag disk
  let bootstrap ← registered s d.tag staged disk
  let g ← generated d s.target disk
  return reportOf d.tag true staged bootstrap g

/-- **A dry run only looks.** -/
theorem generate_dryRun_looks (d : Spec.ApiDocument) (s : Settings) : Edit.Looks (preview d s) (generate d s true) := by
  have hprepare : generate d s true = prepare d s true := by
    unfold generate
    simp only [if_true, bind_pure]
  rw [hprepare, prepare_eq]
  unfold begin
  simp only [bind_assoc, pure_bind]
  exact (stageSkeleton_looks _ _).bind fun staged => (registerVersion_looks _ _ staged).bind fun _ =>
    (describe_looks _ _).bind fun _ => Edit.Looks.pure _

end Project
end ApiRoutes
