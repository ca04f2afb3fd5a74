import ApiRoutes.Proofs.Project.DryRun
import ApiRoutes.Proofs.Project.SecondRun
/-!
# The footprint of a generation

However a generation ends, it deletes nothing and changes files only at places of its own (`generate_footprint`): the
files of the skeleton where there are none, the bootstrap module, the manifest, the base document and the modules of
the document, which lie below their folder whatever the path of an endpoint.  The skeleton asks whether a file is
there by a path; where the path to the app goes up again out of a folder that is missing, the answer is no until the
folder is made, and the file is written over (`generate_overwrites`).
-/
namespace ApiRoutes
namespace Disk

variable {d d' : Disk} {p : Path}

/-! ## Free paths -/

/-- What is free to a path was free to it before. -/
theorem Stands.free (h : Stands d d') (hp : d'.holds p = .ok false) : d.holds p = .ok false := by
  unfold Disk.holds at hp
  obtain ⟨x', hx', -⟩ := bind_eq_ok.1 hp
  obtain ⟨x, hx⟩ := at?_before h.here h.folders hx'
  cases hheld : x.isSome with
  | false =>
    unfold Disk.holds
    rw [hx]
    exact congrArg Except.ok hheld
  | true =>
    have hbefore : d.holds p = .ok true := by
      unfold Disk.holds
      rw [hx]
      exact congrArg Except.ok hheld
    have hafter := h.holds hbefore
    unfold Disk.holds at hafter
    rw [hp] at hafter
    cases hafter

/-- On a tree there is nothing at the place of a straight path that is free. -/
theorem item?_of_free (htree : d.IsTree) (hs : d.straight p = true) (hc : p.check = .ok ()) (h : d.holds p = .ok false) :
    d.item? (d.place p) = none := by
  unfold Disk.holds at h
  obtain ⟨x, hx, hnone⟩ := bind_eq_ok.1 h
  rw [← at?_place htree hs hc hx]
  cases x with
  | none => rfl
  | some i => cases hnone

end Disk

namespace Project

open Disk

variable {d : Spec.ApiDocument} {s : Settings} {target : Path} {tag : Text} {disk disk' : Disk} {dryRun : Bool}
  {P : Location → Prop}

/-! ## Nothing goes -/

theorem begin_moves {R : Disk → Disk → Prop} [IsPreorder Disk R] (hfolders : ∀ p, (ensureFolders p).Moves R)
    (hfile : ∀ p t, (writeFile p t).Moves R) (hatomic : ∀ p t, (writeAtomically p t).Moves R) (s : Settings) (tag : Text)
    (dryRun : Bool) : (begin s tag dryRun).Moves R :=
  ((Edit.Moves.mapM (fun _ => stageFile_moves hfolders hfile _ _ _ _) _).bind fun _ => Edit.Moves.pure _).bind fun _ =>
    (registerVersion_moves hatomic _ _ _ _).bind fun _ => Edit.Moves.pure _

/-- **A generation deletes nothing**, however it ends. -/
theorem generate_remains (d : Spec.ApiDocument) (s : Settings) (dryRun : Bool) : (generate d s dryRun).Moves Remains := by
  cases dryRun with
  | true => exact (generate_dryRun_looks d s).moves
  | false =>
    rw [generate_eq, prepare_eq]
    refine ((begin_moves ensureFolders_remains writeFile_remains writeAtomically_remains _ _ _).bind fun start =>
      (describe_looks _ _).moves.bind fun g => Edit.Moves.pure _).bind fun r => ?_
    split
    · exact (Edit.Moves.log _ _).bind fun _ => Edit.Moves.pure _
    · exact conclude_moves writeAtomically_remains _ _

/-! ## Where files change -/

/-- The places where a run may create or change files. -/
inductive Writable (d : Spec.ApiDocument) (s : Settings) (disk : Disk) : Location → Prop
  /-- A file of the skeleton, where there is none. -/
  | skeleton {f : Text × Text} (hf : f ∈ skeletonFiles)
      (hfree : disk.item? (disk.place (s.target.child (pathFor d.tag f.1))) = none) :
      Writable d s disk (disk.place (s.target.child (pathFor d.tag f.1)))
  | bootstrap : Writable d s disk (disk.place s.bootstrapPath)
  | manifest : Writable d s disk (disk.place s.manifestPath)
  | baseDocument : Writable d s disk (disk.place (s.target.child (baseDocumentFile d.tag)))
  /-- The module of a path of the document. -/
  | module {p : Text × Option (List (Text × Value))} {file : Text} (hp : p ∈ d.paths)
      (hfile : Route.endpointFile d.tag p.1 = .ok file) : Writable d s disk (disk.place (s.target.child file))

theorem stageFile_fails {path content : Text} {x : Failure}
    (h : (stageFile target false path content).Fails disk x disk') : AddsFolders disk disk' := by
  unfold stageFile at h
  obtain rfl | ⟨b, -, h₁⟩ := Edit.Fails.of_same_bind (Edit.Moves.ask _) h
  · exact refl_of _ _
  · cases b with
    | true => exact absurd h₁ Edit.Fails.not_pure
    | false =>
      obtain hfolders | ⟨u, disk₁, hfolders, h₂⟩ := Edit.Fails.of_bind h₁
      · exact hfolders.moves (ensureFolders_adds _)
      · obtain hwrite | ⟨u, disk₂, -, h₃⟩ := Edit.Fails.of_bind h₂
        · rw [writeFile_fails hwrite]
          exact hfolders.moves (ensureFolders_adds _)
        · obtain hlog | ⟨u, disk₃, -, hpure⟩ := Edit.Fails.of_bind h₃
          · exact absurd hlog Edit.Fails.not_log
          · exact absurd hpure Edit.Fails.not_pure

/-- Staging a file changes files only where the path is free. -/
theorem stageFile_frees {path content : Text} (h : disk.holds (target.child path) = .ok false →
      (target.child path).check = .ok () → ∀ m, P m → m ≠ disk.place (target.child path)) :
    (stageFile target false path content).MovesFrom (SameFiles P) disk :=
  .of_ends (fun o disk' ht => by
    obtain ⟨hstaged, ⟨rfl, rfl⟩ | ⟨rfl, hcreates⟩⟩ := stageFile_takes ht
    · exact .refl _ _
    · unfold stagedFile at hstaged
      obtain ⟨b, hb, hend⟩ := bind_eq_ok.1 hstaged
      cases b with
      | true => cases hend
      | false => exact (hcreates.keepsAt.mono (h hb hcreates.checked)).toSameFiles)
  fun _ _ hf => (stageFile_fails hf).sameFiles

/-- **Staging the skeleton changes files only where there are none.** -/
theorem stageSkeleton_frees (h : ∀ f ∈ skeletonFiles, disk.holds (target.child (pathFor tag f.1)) = .ok false →
      (target.child (pathFor tag f.1)).check = .ok () → ∀ m, P m → m ≠ disk.place (target.child (pathFor tag f.1))) :
    (stageSkeleton target tag false).MovesFrom (SameFiles P) disk := by
  simp only [skeletonFiles, List.mem_cons, List.not_mem_nil, or_false, forall_eq_or_imp, forall_eq, pathFor_index,
    pathFor_bootstrap] at h
  rw [stageSkeleton_eq]
  refine .bind (stageFile_frees h.1) fun a disk₁ ha => .bind (stageFile_frees fun hfree hc m hm => ?_) fun b disk₂ _ =>
    Edit.Moves.pure _ disk₂
  -- What is free after the first file was free before it.
  have hstands := ha.moves (stageFile_moves ensureFolders_stands writeFile_stands _ _ _ _)
  rw [place_congr hstands.here]
  exact h.2 (hstands.free hfree) hc m hm

theorem writeFiles_files {fs : List GeneratedFile} (h : ∀ f ∈ fs, ∀ m, P m → m ≠ disk.place (target.child f.path)) :
    (writeFiles target fs).MovesFrom (SameFiles P) disk := by
  unfold writeFiles
  refine .mapM fun f hf disk₁ h₁ => ?_
  refine .bind (writeAtomically_files fun m hm => h₁.place _ ▸ h f (List.mem_filter.1 hf).1 m hm) fun _ disk₂ _ => ?_
  exact (Edit.Moves.log _ _).bind (fun _ => Edit.Moves.pure _) disk₂

theorem updateManifest_files {p : Path} (h : ∀ m, P m → m ≠ disk.place p) :
    (updateManifest p).MovesFrom (SameFiles P) disk := by
  unfold updateManifest
  refine Edit.Moves.from_bind (Edit.Moves.ask _) fun existing => Edit.Moves.from_bind (Edit.Moves.ofOutcome _) fun merged => ?_
  split
  · exact Edit.Moves.pure _ disk
  · refine .bind (writeAtomically_files h) fun _ disk₁ _ => ?_
    exact (Edit.Moves.log _ _).bind (fun _ => Edit.Moves.pure _) disk₁

theorem file?_inLightOf {faults : List (Text × Text)} {r : EndpointResult} {f : GeneratedFile}
    (h : (inLightOf faults r).file? = some f) : r.file? = some f := by
  unfold inLightOf at h
  split at h
  · exact h
  · cases h

/-- What is generated beside the base document are modules of paths of the document. -/
theorem exists_path_of_generated {g : GeneratedFile × List EndpointResult} (h : generated d target disk = .ok g)
    {f : GeneratedFile} (hf : f ∈ g.2.filterMap EndpointResult.file?) :
    ∃ p ∈ d.paths, Route.endpointFile d.tag p.1 = .ok f.path := by
  obtain ⟨es, rs, -, hes, hrs, hchecked⟩ := generated_eq_ok.1 h
  obtain ⟨r, hr, hfile⟩ := List.mem_filterMap.1 hf
  unfold checkedFiles at hchecked
  obtain ⟨faults, -, hend⟩ := bind_eq_ok.1 hchecked
  split at hend
  · cases hend
  · rw [← Except.ok.inj hend] at hr
    obtain ⟨r₀, hr₀, rfl⟩ := List.mem_map.1 hr
    obtain ⟨e, he, hmerged⟩ := exists_of_forall₂ (mapM_eq_ok.1 hrs) hr₀
    have hmade := ((mergedEndpoint_ok hmerged).2 f (file?_eq_some.1 (file?_inLightOf hfile))).1.file
    have hpath := List.mem_map_of_mem (f := (·.path)) he
    rw [Spec.paths_endpoints hes] at hpath
    obtain ⟨p, hp, hpe⟩ := List.mem_map.1 hpath
    exact ⟨p, hp, hpe ▸ hmade⟩

/-- Once the skeleton is staged, a generation changes files only at the other places of its own. -/
theorem staged_files (staged : List Text)
    (h : ∀ m, P m → m ≠ disk.place s.bootstrapPath ∧ m ≠ disk.place s.manifestPath ∧
      m ≠ disk.place (s.target.child (baseDocumentFile d.tag)) ∧ ∀ p ∈ d.paths, ∀ file,
        Route.endpointFile d.tag p.1 = .ok file → m ≠ disk.place (s.target.child file)) :
    (registerVersion s d.tag false staged >>= fun b => proceed d s (staged, b)).MovesFrom (SameFiles P) disk := by
  have hregister : (registerVersion s d.tag false staged).MovesFrom (SameFiles P) disk :=
    registerVersion_files fun m hm => (h m hm).1
  refine .bind hregister fun b disk₁ hb => ?_
  have hplace := (hb.movesFrom hregister).place
  unfold proceed
  refine .bind ((describe_looks d s.target).moves disk₁) fun g disk₂ hdescribe => ?_
  obtain ⟨hg, rfl⟩ := (describe_looks d s.target).takes hdescribe
  dsimp only
  split
  · exact ((Edit.Moves.log _ _).bind fun _ => Edit.Moves.pure _) _
  · have hwrites : (writeFiles s.target (g.1 :: g.2.filterMap EndpointResult.file?)).MovesFrom (SameFiles P) disk₂ := by
      refine writeFiles_files fun f hf m hm => ?_
      rw [hplace]
      obtain rfl | hf := List.mem_cons.1 hf
      · obtain ⟨es, rs, hbase, -⟩ := generated_eq_ok.1 hg
        rw [(baseFile_eq_ok.1 hbase).2.2.2]
        exact (h m hm).2.2.1
      · obtain ⟨p, hp, hfile⟩ := exists_path_of_generated hg hf
        exact (h m hm).2.2.2 p hp _ hfile
    refine .bind hwrites fun paths disk₃ hpaths => .bind (updateManifest_files fun m hm => ?_) fun b disk₄ _ =>
      Edit.Moves.pure _ disk₄
    rw [(hpaths.movesFrom hwrites).place, hplace]
    exact (h m hm).2.1

/-- **A generation changes files only at places of its own**, however it ends. -/
theorem generate_files (htree : disk.IsTree) (hs : disk.straight s.target = true) :
    (generate d s dryRun).MovesFrom (SameFiles fun m => ¬ Writable d s disk m) disk := by
  cases dryRun with
  | true => exact (generate_dryRun_looks d s).moves disk
  | false =>
    have hskeleton : (stageSkeleton s.target d.tag false).MovesFrom (SameFiles fun m => ¬ Writable d s disk m) disk := by
      refine stageSkeleton_frees fun f hf hfree hc m hm heq => hm ?_
      have hstraight : disk.straight (s.target.child (pathFor d.tag f.1)) = true := by
        unfold skeletonFiles at hf
        simp only [List.mem_cons, List.not_mem_nil, or_false] at hf
        obtain rfl | rfl := hf
        · rw [pathFor_index]
          exact straight_versionFile hs (not_mem_tag d) (by decide)
        · rw [pathFor_bootstrap]
          exact straight_child hs (rootOf_cons (by decide)) (by decide)
      exact heq ▸ .skeleton hf (item?_of_free htree hstraight hc hfree)
    rw [generate_eq_staged]
    refine .bind hskeleton fun staged disk₁ hstaged => staged_files staged fun m hm => ?_
    simp only [(hstaged.movesFrom hskeleton).place]
    refine ⟨?_, ?_, ?_, ?_⟩
    · exact fun heq => hm (heq ▸ .bootstrap)
    · exact fun heq => hm (heq ▸ .manifest)
    · exact fun heq => hm (heq ▸ .baseDocument)
    · exact fun p hp file hfile heq => hm (heq ▸ .module hp hfile)

/-! ## The whole -/

/-- The file is strictly below the folder of the modules of a version, by its place and between slashes of both
kinds. -/
structure IsModuleFile (tag file : Text) : Prop where
  place : ∀ (disk : Disk) (target : Path), ∃ names, names ≠ [] ∧ Path.up ∉ names ∧
    disk.place (target.child file) = disk.place (modulesFolder target tag) ++ names
  segments : ∃ names, names ≠ [] ∧ Path.up ∉ names ∧ (Route.segments file).filter Path.leads =
    (Route.segments (versionFile tag "paths")).filter Path.leads ++ names

theorem isModuleFile_endpointFile {path file : Text} (h : Route.endpointFile tag path = .ok file) : IsModuleFile tag file :=
  ⟨fun _ _ => place_endpointFile h, segments_endpointFile h⟩

/-- The place of a module is written to only as such, or as a file that the settings name. -/
theorem Writable.cases_module {path file : Text} (hfile : Route.endpointFile d.tag path = .ok file)
    (h : Writable d s disk (disk.place (s.target.child file))) :
    disk.place (s.target.child file) = disk.place s.bootstrapPath ∨ disk.place (s.target.child file) = disk.place s.manifestPath ∨
      ∃ p ∈ d.paths, ∃ file', Route.endpointFile d.tag p.1 = .ok file' ∧
        disk.place (s.target.child file') = disk.place (s.target.child file) := by
  obtain ⟨names, -, -, hplace⟩ : ∃ names, names ≠ [] ∧ Path.up ∉ names ∧
      disk.place (s.target.child file) = disk.place (modulesFolder s.target d.tag) ++ names := place_endpointFile hfile
  have hbelow : disk.place (modulesFolder s.target d.tag) <+: disk.place (s.target.child file) := ⟨names, hplace.symm⟩
  generalize hm : disk.place (s.target.child file) = m at h hbelow
  cases h with
  | skeleton hf _ => exact absurd hbelow (skeleton_not_below (not_mem_tag d) _ hf)
  | bootstrap => exact .inl rfl
  | manifest => exact .inr (.inl rfl)
  | baseDocument => exact absurd hbelow (baseDocument_not_below (not_mem_tag d))
  | module hp hfile' => exact .inr (.inr ⟨_, hp, _, hfile', rfl⟩)

/-- What a run leaves of a disk. -/
structure Footprint (d : Spec.ApiDocument) (s : Settings) (disk disk' : Disk) : Prop where
  /-- Nothing is deleted. -/
  remains : Remains disk disk'
  /-- Files are created and changed only at the places of the run. -/
  files : SameFiles (fun m => ¬ Writable d s disk m) disk disk'
  /-- The module of a path that is not in the document is as it was, unless the place is that of another file. -/
  modules : ∀ path file, Route.endpointFile d.tag path = .ok file →
    disk.place (s.target.child file) ≠ disk.place s.bootstrapPath →
    disk.place (s.target.child file) ≠ disk.place s.manifestPath →
    (∀ p ∈ d.paths, ∀ file', Route.endpointFile d.tag p.1 = .ok file' →
      disk.place (s.target.child file') ≠ disk.place (s.target.child file)) →
    ∀ bytes, disk'.item? (disk.place (s.target.child file)) = some (.file bytes) ↔
      disk.item? (disk.place (s.target.child file)) = some (.file bytes)

/-- **The footprint of a run**, however it ends, on a tree where the way to the folder of the app does not go up again
out of a folder that is missing. -/
theorem generate_footprint {result : Outcome Report} {logs : List Record} (htree : disk.IsTree)
    (hs : disk.straight s.target = true) (h : (generate d s dryRun).perform disk = (disk', result, logs)) :
    Footprint d s disk disk' ∧ ∀ tag path, (∀ f, Route.endpointFile tag path = .error f ↔
        f = .dotSegments path ∧ (Route.segments path).any Route.isDotSegment = true) ∧
      ∀ file, Route.endpointFile tag path = .ok file → IsModuleFile tag file := by
  have hends : disk' = ((generate d s dryRun).runFrom disk []).1.2 := by
    rw [Edit.perform_eq] at h
    exact (congrArg Prod.fst h).symm
  have hfiles : SameFiles (fun m => ¬ Writable d s disk m) disk disk' := hends ▸ generate_files htree hs []
  refine ⟨⟨hends ▸ generate_remains d s dryRun disk [], hfiles, fun path file hfile hbootstrap hmanifest hother => ?_⟩,
    fun tag path => ⟨fun f => endpointFile_eq_error, fun file hfile => isModuleFile_endpointFile hfile⟩⟩
  refine hfiles.files _ fun hwritable => ?_
  obtain heq | heq | ⟨p, hp, file', hfile', heq⟩ := hwritable.cases_module hfile
  · exact hbootstrap heq
  · exact hmanifest heq
  · exact hother p hp file' hfile' heq

/-- A disk with the module of a path that is in no document any more. -/
def wornDisk : Disk where
  items := (["src", "api", "v1", "paths"], .folder) :: (["src", "api", "v1", "paths", "gone.js"], .file []) ::
    unregisteredDisk.items

theorem generate_footprint_worn : wornDisk.IsTree ∧ wornDisk.straight {} = true ∧ ∃ disk result logs,
    (generate { paths := [("/a", some [])] } {} false).perform wornDisk = (disk, result, logs) ∧
    (Footprint { paths := [("/a", some [])] } {} wornDisk disk ∧ ∀ tag path,
      (∀ f, Route.endpointFile tag path = .error f ↔
        f = .dotSegments path ∧ (Route.segments path).any Route.isDotSegment = true) ∧
      ∀ file, Route.endpointFile tag path = .ok file → IsModuleFile tag file) := by
  have htree : wornDisk.IsTree := isTree_of_items (by decide +kernel)
  generalize hp : (generate { paths := [("/a", some [])] } {} false).perform wornDisk = run
  obtain ⟨disk, result, logs⟩ := run
  exact ⟨htree, by decide +kernel, disk, result, logs, rfl, generate_footprint htree (by decide +kernel) hp⟩

/-- A way that goes up out of a missing folder hides what there is, and the skeleton is written over it. -/
theorem generate_overwrites : ¬ ∀ (d : Spec.ApiDocument) (s : Settings) (dryRun : Bool) (disk disk' : Disk)
    (result : Outcome Report) (logs : List Record), disk.IsTree →
      (generate d s dryRun).perform disk = (disk', result, logs) →
      SameFiles (fun m => ¬ Writable d s disk m) disk disk' := by
  intro hall
  have hsame := hall {} { target := .ofText "missing/.." } false stagedDisk
  generalize hp : (generate {} { target := .ofText "missing/.." } false).perform stagedDisk = run at hsame
  have hlost : run.1.item? [("src" : Text), ("api" : Text), ("v1" : Text), ("index.js" : Text)] ≠ some (.file []) := by
    rw [← hp]
    decide +kernel
  obtain ⟨disk, result, logs⟩ := run
  refine hlost (((hsame disk result logs (isTree_of_items (by decide)) rfl).files _ (fun hwritable => ?_) []).2 (by decide))
  generalize hm : [("src" : Text), ("api" : Text), ("v1" : Text), ("index.js" : Text)] = m at hwritable
  cases hwritable with
  | skeleton hf hfree =>
    rw [← hm] at hfree
    revert hfree
    decide
  | bootstrap => exact absurd hm (by decide +kernel)
  | manifest => exact absurd hm (by decide +kernel)
  | baseDocument => exact absurd hm (by decide +kernel)
  | module hp hfile => exact absurd hp (by simp)

end Project
end ApiRoutes
