import Mathlib.Data.List.Permutation
import ApiRoutes.Proofs.Disk.Standing
import ApiRoutes.Proofs.Project.Checking
import ApiRoutes.Proofs.Project.Staging
import ApiRoutes.Proofs.Spec.Reduction
import ApiRoutes.Proofs.Yaml.Printable
/-!
# Running a generation again

A second run of a generation stages nothing, as all that it stages stands where the first run left it
(`missingFiles_after`), and writes the base document as it is, as that reads back as it was written.  It changes
nothing exactly when its other steps recognise what the first run made of their files (`generate_again`).
-/
namespace ApiRoutes.Project

open Disk

variable {d : Spec.ApiDocument} {s : Settings} {target : Path} {tag : Text} {disk disk' : Disk} {r : Report}

/-! ## What a run does to a disk -/

section Moves

variable {R : Disk → Disk → Prop} [IsPreorder Disk R] (hfolders : ∀ p, (ensureFolders p).Moves R)
  (hfile : ∀ p t, (writeFile p t).Moves R) (hatomic : ∀ p t, (writeAtomically p t).Moves R)

include hfolders hfile in
theorem stageFile_moves (target : Path) (dryRun : Bool) (path content : Text) :
    (stageFile target dryRun path content).Moves R := by
  unfold stageFile
  refine (Edit.Moves.ask _).bind fun b => ?_
  dsimp only
  split
  · exact Edit.Moves.pure _
  · split
    · exact (hfolders _).bind fun _ => (hfile _ _).bind fun _ => (Edit.Moves.log _ _).bind fun _ => Edit.Moves.pure _
    · exact Edit.Moves.pure _

include hatomic in
theorem registerVersion_moves (s : Settings) (tag : Text) (dryRun : Bool) (staged : List Text) :
    (registerVersion s tag dryRun staged).Moves R := by
  unfold registerVersion
  refine (bootstrapText_looks s tag staged).moves.bind fun found => ?_
  obtain ⟨previous, text⟩ := found
  cases text with
  | none => exact (Edit.Moves.log _ _).bind fun _ => Edit.Moves.pure _
  | some text =>
    refine (Edit.Moves.ofLogged _).bind fun patched => ?_
    cases patched with
    | none => exact Edit.Moves.pure _
    | some patched =>
      dsimp only
      split
      · exact (hatomic _ _).bind fun _ => Edit.Moves.pure _
      · exact Edit.Moves.pure _

include hatomic in
theorem conclude_moves (s : Settings) (r : Report) : (conclude s r).Moves R := by
  unfold conclude writeFiles updateManifest
  refine (Edit.Moves.mapM (fun f => ?_) _).bind fun written => .bind ?_ fun updated => Edit.Moves.pure _
  · exact (hatomic _ _).bind fun _ => (Edit.Moves.log _ _).bind fun _ => Edit.Moves.pure _
  · refine (Edit.Moves.ask _).bind fun existing => (Edit.Moves.ofOutcome _).bind fun merged => ?_
    split
    · exact Edit.Moves.pure _
    · exact (hatomic _ _).bind fun _ => (Edit.Moves.log _ _).bind fun _ => Edit.Moves.pure _

end Moves

/-! ## The steps of a run -/

/-- **The steps of a run** that reports no failures. -/
theorem generate_steps (h : (generate d s false).Takes disk r disk') (hok : r.isOk = true) :
    ∃ start g disk₁ paths disk₂ b, (begin s d.tag false).Takes disk start disk₁ ∧
      generated d s.target disk₁ = .ok g ∧
      (writeFiles s.target (g.1 :: g.2.filterMap EndpointResult.file?)).Takes disk₁ paths disk₂ ∧
      (updateManifest s.manifestPath).Takes disk₂ b disk' ∧
      r = { reportOf d.tag false start.1 start.2 g with
        written := (start.2.map (·.path)).toList ++ paths, manifestUpdated := b } := by
  rw [generate_eq] at h
  obtain ⟨r₀, disk₁, hr₀, h₁⟩ := Edit.Takes.of_bind h
  obtain ⟨start, g, hstart, hg, rfl⟩ := prepare_takes_steps hr₀
  split at h₁
  · rename_i hblocked
    obtain ⟨rfl, -⟩ := (Edit.Takes.of_log_bind h₁).eq_of_pure
    simp [hok] at hblocked
  · unfold conclude at h₁
    obtain ⟨paths, disk₂, hpaths, h₂⟩ := Edit.Takes.of_bind h₁
    obtain ⟨b, disk₃, hb, h₃⟩ := Edit.Takes.of_bind h₂
    obtain ⟨rfl, rfl⟩ := h₃.eq_of_pure
    exact ⟨start, g, disk₁, paths, disk₂, b, hstart, hg, hpaths, hb, rfl⟩

/-! ## What a run leaves -/

/-- A file of the skeleton is there once it was staged. -/
theorem stageFile_holds {path content : Text} {o : Option Text}
    (h : (stageFile target false path content).Takes disk o disk') : disk'.holds (target.child path) = .ok true := by
  obtain ⟨hfound, ⟨rfl, rfl⟩ | ⟨rfl, hcreates⟩⟩ := stageFile_takes h
  · unfold stagedFile at hfound
    obtain ⟨held, hheld, hend⟩ := bind_eq_ok.1 hfound
    cases held with
    | true => exact hheld
    | false => cases hend
  · obtain ⟨bytes, -, hitem⟩ := hcreates.file
    have hat := at?_of_locate hcreates.checked (find_ok hcreates.found).2
    unfold Disk.holds
    rw [hat, hitem]
    rfl

theorem stagedFile_of_holds {path : Text} (h : disk.holds (target.child path) = .ok true) :
    stagedFile target path disk = .ok none := by
  unfold stagedFile
  rw [h]
  rfl

/-- **All that a run stages is there after it.** -/
theorem missingFiles_after (h : (generate d s false).Takes disk r disk') : missingFiles s.target d.tag disk' = .ok [] := by
  rw [generate_eq, prepare_eq] at h
  obtain ⟨r₀, disk₄, hprepare, hrest⟩ := Edit.Takes.of_bind h
  obtain ⟨start, disk₃, hbegin, hdescribe⟩ := Edit.Takes.of_bind hprepare
  unfold begin at hbegin
  rw [stageSkeleton_eq] at hbegin
  obtain ⟨staged, disk₂, hstage, hregister⟩ := Edit.Takes.of_bind hbegin
  obtain ⟨a, disk₁, ha, hsecond⟩ := Edit.Takes.of_bind hstage
  obtain ⟨b, disk₅, hb, hend⟩ := Edit.Takes.of_bind hsecond
  obtain ⟨-, rfl⟩ := hend.eq_of_pure
  -- What stands after the skeleton is staged stands to the end.
  have hregistered : Stands disk₂ disk₃ := hregister.moves
    ((registerVersion_moves writeAtomically_stands _ _ _ _).bind fun _ => Edit.Moves.pure _)
  have hdescribed : Stands disk₃ disk₄ := hdescribe.moves
    ((describe_looks d s.target).moves.bind fun _ => Edit.Moves.pure _)
  have hconcluded : Stands disk₄ disk' := by
    split at hrest
    · exact hrest.moves ((Edit.Moves.log _ _).bind fun _ => Edit.Moves.pure _)
    · exact hrest.moves (conclude_moves writeAtomically_stands _ _)
  have hstands : Stands disk₂ disk' := (hregistered.trans hdescribed).trans hconcluded
  have hindex := ((hb.moves (stageFile_moves ensureFolders_stands writeFile_stands _ _ _ _)).trans hstands).holds
    (stageFile_holds ha)
  have hbootstrap := hstands.holds (stageFile_holds hb)
  unfold missingFiles
  rw [stagedFile_of_holds hindex, stagedFile_of_holds hbootstrap]
  rfl

/-! ## A run that has nothing to change -/

theorem stageFile_gives {path content : Text} (h : stagedFile target path disk = .ok none) :
    (stageFile target false path content).Gives disk none disk := by
  unfold stagedFile at h
  obtain ⟨held, hheld, hend⟩ := bind_eq_ok.1 h
  cases held with
  | false => cases hend
  | true =>
    unfold stageFile
    refine ((Edit.Looks.ask fun disk : Disk => disk.holds (target.child path)).gives hheld).bind ?_
    exact .pure _ _

theorem missingFiles_eq_nil : missingFiles target tag disk = .ok [] ↔
    stagedFile target (versionFile tag "index.js") disk = .ok none ∧ stagedFile target "src/index.js" disk = .ok none := by
  unfold missingFiles
  simp only [bind_eq_ok]
  constructor
  · rintro ⟨a, ha, b, hb, h⟩
    have hnil := Except.ok.inj h
    cases a <;> cases b <;> simp at hnil
    exact ⟨ha, hb⟩
  · rintro ⟨ha, hb⟩
    exact ⟨none, ha, none, hb, rfl⟩

theorem registerVersion_gives {staged : List Text} (h : registered s tag staged disk = .ok none) :
    (registerVersion s tag false staged).Gives disk none disk := by
  unfold registered at h
  obtain ⟨found, hfound, hrest⟩ := bind_eq_ok.1 h
  unfold registerVersion
  refine ((bootstrapText_looks s tag staged).gives hfound).bind ?_
  obtain ⟨previous, text⟩ := found
  cases text with
  | none => exact (Edit.Gives.log _ _ _).bind (.pure _ _)
  | some text =>
    obtain ⟨patched, hpatched, hend⟩ := bind_eq_ok.1 hrest
    cases patched with
    | some t => cases hend
    | none => exact ((Edit.Looks.ofLogged _).gives hpatched).bind (.pure _ _)

theorem stageSkeleton_gives (h : missingFiles target tag disk = .ok []) :
    (stageSkeleton target tag false).Gives disk [] disk := by
  obtain ⟨hindex, hbootstrap⟩ := missingFiles_eq_nil.1 h
  rw [stageSkeleton_eq]
  exact (stageFile_gives hindex).bind ((stageFile_gives hbootstrap).bind (.pure ([] : List Text) _))

/-- **Nothing is begun** exactly when the version is registered, where nothing is missing. -/
theorem begin_takes_nothing (hmissing : missingFiles s.target tag disk = .ok []) :
    (begin s tag false).Takes disk ([], none) disk' ↔ disk' = disk ∧ registered s tag [] disk = .ok none := by
  constructor
  · intro h
    unfold begin at h
    obtain ⟨staged, disk₁, hstaged, h₁⟩ := Edit.Takes.of_bind h
    obtain ⟨b, disk₂, hb, h₂⟩ := Edit.Takes.of_bind h₁
    obtain ⟨rfl, rfl⟩ := (stageSkeleton_gives hmissing).eq_of_takes hstaged
    obtain ⟨heq, rfl⟩ := h₂.eq_of_pure
    obtain ⟨-, rfl⟩ := Prod.mk.inj heq
    obtain ⟨hregistered, ⟨-, rfl⟩ | ⟨f, hf, -⟩⟩ := registerVersion_takes hb
    · exact ⟨rfl, hregistered⟩
    · cases hf
  · rintro ⟨rfl, hregistered⟩
    unfold begin
    exact ((stageSkeleton_gives hmissing).bind ((registerVersion_gives hregistered).bind
      (.pure (([] : List Text), (none : Option GeneratedFile)) _))).takes

/-- The manifest has all that the defaults would add to it. -/
def IsComplete (p : Path) (disk : Disk) : Prop :=
  ∃ v, (do manifestValue p (← disk.readText? p)) = .ok v ∧ mergeManifest defaultManifest v = .ok v

/-- **The manifest is left** exactly when it is complete. -/
theorem updateManifest_takes_nothing {p : Path} :
    (updateManifest p).Takes disk false disk' ↔ disk' = disk ∧ IsComplete p disk := by
  unfold updateManifest
  constructor
  · intro h
    obtain ⟨existing, hexisting, h₁⟩ := Edit.Takes.of_ask_bind h
    obtain ⟨merged, hmerged, h₂⟩ := Edit.Takes.of_same_bind (Edit.Moves.ofOutcome _) h₁
    obtain ⟨hvalue, -⟩ := Edit.Takes.of_ofOutcome hmerged
    split at h₂
    · rename_i hsame
      obtain ⟨-, rfl⟩ := h₂.eq_of_pure
      exact ⟨rfl, existing, hexisting, by rw [hvalue, hsame]⟩
    · obtain ⟨u, disk₁, -, h₃⟩ := Edit.Takes.of_bind h₂
      obtain ⟨heq, -⟩ := (Edit.Takes.of_log_bind h₃).eq_of_pure
      cases heq
  · rintro ⟨rfl, v, hv, hmerged⟩
    refine (((Edit.Looks.ask fun disk : Disk => do manifestValue p (← disk.readText? p)).gives hv).bind
      ((Edit.Gives.ofOutcome hmerged _).bind ?_)).takes
    rw [if_pos rfl]
    exact .pure _ _

theorem writeFiles_takes_nothing {fs : List GeneratedFile} :
    (writeFiles target fs).Takes disk [] disk' ↔ disk' = disk ∧ ∀ f ∈ fs, f.isChanged = false := by
  have hnone : (∀ f ∈ fs, f.isChanged = false) ↔ fs.filter GeneratedFile.isChanged = [] := by
    rw [List.filter_eq_nil_iff]
    simp only [Bool.not_eq_true]
  rw [hnone]
  unfold writeFiles
  cases hfs : fs.filter GeneratedFile.isChanged with
  | nil =>
    rw [List.mapM_nil]
    constructor
    · intro h
      obtain ⟨-, rfl⟩ := h.eq_of_pure
      exact ⟨rfl, rfl⟩
    · rintro ⟨rfl, -⟩
      exact (Edit.Gives.pure _ _).takes
  | cons f rest =>
    rw [List.mapM_cons]
    constructor
    · intro h
      obtain ⟨path, disk₁, -, h₁⟩ := Edit.Takes.of_bind h
      obtain ⟨paths, disk₂, -, h₂⟩ := Edit.Takes.of_bind h₁
      obtain ⟨heq, -⟩ := h₂.eq_of_pure
      cases heq
    · rintro ⟨-, h⟩
      cases h

/-! ## What was generated without a failure -/

/-- A result is left by its verdict when nothing is wrong with any file. -/
theorem checkedFiles_of_valid {base : GeneratedFile} {rs : List EndpointResult}
    (h : ∀ f ∈ rs.filterMap EndpointResult.file? ++ [base], reasonOf f.path f.content = .ok none) :
    checkedFiles base rs = .ok rs := by
  have hlast : ∀ {path t : Text}, lastText? path (rs.filterMap EndpointResult.file? ++ [base]) = some t →
      reasonOf path t = .ok none := fun ht => by
    obtain ⟨f, hf, rfl, rfl⟩ := mem_of_lastText ht
    exact h f hf
  refine checkedFiles_eq_ok.2 ⟨fun path t ht => ⟨none, hlast ht⟩,
    h base (List.mem_append_right _ List.mem_cons_self), ?_⟩
  refine ((List.map_congr_left fun r _ => ?_).trans (List.map_id rs)).symm
  unfold verdict
  cases hr : r.file? with
  | none => rfl
  | some f =>
    cases ht : lastText? f.path (rs.filterMap EndpointResult.file? ++ [base]) with
    | none => simp only [Option.bind_some, ht, Option.bind_none, id_eq]
    | some t => simp only [Option.bind_some, ht, hlast ht, Except.toOption, Option.join_some, id_eq]

theorem eq_of_verdict_ok {files : List GeneratedFile} {r : EndpointResult} {f : GeneratedFile}
    (h : (verdict files r).outcome = .ok f) : verdict files r = r := by
  unfold verdict at h ⊢
  split
  · rfl
  · rename_i hreason
    rw [hreason] at h
    cases h

/-- **What was generated without a failure**: each endpoint has a module that it was merged into, and the base
document is valid. -/
theorem generated_ok {g : GeneratedFile × List EndpointResult} (h : generated d target disk = .ok g)
    (hok : ∀ e ∈ g.2, ∃ f, e.outcome = .ok f) :
    ∃ es, d.endpoints.2 = .ok es ∧ baseFile d target d.tag disk = .ok g.1 ∧ reasonOf g.1.path g.1.content = .ok none ∧
      List.Forall₂ (fun e r => ∃ f, MergedInto target d.tag disk e f ∧ r = ⟨e.path, some f.path, .ok f⟩) es g.2 := by
  obtain ⟨es, rs, hbase, hes, hrs, hchecked⟩ := generated_eq_ok.1 h
  obtain ⟨-, hvalid, hverdicts⟩ := checkedFiles_eq_ok.1 hchecked
  have hsame : g.2 = rs := by
    rw [hverdicts]
    refine (List.map_congr_left fun r hr => ?_).trans (List.map_id rs)
    obtain ⟨f, hf⟩ := hok _ (hverdicts ▸ List.mem_map_of_mem hr)
    exact eq_of_verdict_ok hf
  refine ⟨es, hes, hbase, hvalid, ?_⟩
  rw [hsame] at hok ⊢
  refine ((List.forall₂_and_left rs es).2 ⟨hok, (mapM_eq_ok.1 hrs).flip⟩).flip.imp fun e r hr => ?_
  obtain ⟨⟨f, hf⟩, hmerged⟩ := hr
  obtain ⟨hendpoint, hfile⟩ := mergedEndpoint_ok hmerged
  obtain ⟨hmade, hpath⟩ := hfile f hf
  obtain ⟨endpoint, path, outcome⟩ := r
  cases hendpoint
  cases hpath
  cases hf
  exact ⟨f, hmade, rfl⟩

/-! ## The files that a run leaves -/

/-- The files of a run are apart: none has the place of another one, unless they are modules of the same text. -/
structure FilesAt (s : Settings) (r : Report) (disk : Disk) : Prop where
  base : disk.place s.manifestPath ≠ disk.place (s.target.child r.baseDocument.path)
  manifest : ∀ f ∈ r.modules, disk.place s.manifestPath ≠ disk.place (s.target.child f.path)
  modules : ∀ f ∈ r.modules, ∀ g ∈ r.modules,
    disk.place (s.target.child f.path) = disk.place (s.target.child g.path) →
      unifyLineEnds f.content = unifyLineEnds g.content
  bootstrap : r.bootstrap ≠ none → disk.place s.bootstrapPath ≠ disk.place s.manifestPath ∧
    ∀ f ∈ r.baseDocument :: r.modules, disk.place s.bootstrapPath ≠ disk.place (s.target.child f.path)

/-- The files that a run reports are on the disk, with their line ends unified. -/
structure Leaves (s : Settings) (r : Report) (disk : Disk) : Prop where
  base : disk.readText (s.target.child r.baseDocument.path) = .ok r.baseDocument.content
  modules : ∀ f ∈ r.modules, disk.readText (s.target.child f.path) = .ok (unifyLineEnds f.content)
  bootstrap : ∀ f, r.bootstrap = some f → disk.readText s.bootstrapPath = .ok (unifyLineEnds f.content)

theorem unifyLineEnds_of_renderBaseDocument {t : Text} (h : renderBaseDocument d = .ok t) : unifyLineEnds t = t := by
  unfold renderBaseDocument at h
  cases ht : d.baseTree with
  | error f =>
    rw [ht] at h
    cases h
  | ok tree =>
    rw [ht] at h
    cases h
    exact unifyLineEnds_of_not_mem (Yaml.not_mem_render tree)

/-- The base document that a run reports has only line feeds. -/
theorem unifyLineEnds_baseDocument (h : (generate d s false).Takes disk r disk') (hok : r.isOk = true) :
    unifyLineEnds r.baseDocument.content = r.baseDocument.content := by
  obtain ⟨start, g, disk₁, paths, disk₂, b, -, hg, -, -, rfl⟩ := generate_steps h hok
  obtain ⟨es, rs, hbase, -⟩ := generated_eq_ok.1 hg
  exact unifyLineEnds_of_renderBaseDocument (baseFile_eq_ok.1 hbase).2.1

theorem begin_takes_bootstrap {staged : List Text} {f : GeneratedFile}
    (h : (begin s tag false).Takes disk (staged, some f) disk') :
    disk'.readText s.bootstrapPath = .ok (unifyLineEnds f.content) := by
  unfold begin at h
  obtain ⟨staged', disk₁, -, h₁⟩ := Edit.Takes.of_bind h
  obtain ⟨b, disk₂, hb, h₂⟩ := Edit.Takes.of_bind h₁
  obtain ⟨heq, rfl⟩ := h₂.eq_of_pure
  obtain ⟨-, rfl⟩ := Prod.mk.inj heq
  obtain ⟨-, ⟨hnone, -⟩ | ⟨f', hf', hwrite⟩⟩ := registerVersion_takes hb
  · cases hnone
  · cases hf'
    exact (writeAtomically_readText hwrite).1

/-- **A run leaves what it reports**, where its files are apart. -/
theorem generate_leaves (h : (generate d s false).Takes disk r disk') (hok : r.isOk = true)
    (hfiles : FilesAt s r disk') : Leaves s r disk' := by
  obtain ⟨disk₁, disk₂, hprepared, hwritten, hkeeps⟩ := generate_takes h hok
  have hplace : ∀ p, disk'.place p = disk₁.place p := place_congr (hkeeps.here.trans hwritten.here)
  have hplace₂ : ∀ p, disk₂.place p = disk'.place p := fun p => (hkeeps.place p).symm
  refine ⟨?_, fun f hf => ?_, fun f hf => ?_⟩
  · rw [← unifyLineEnds_baseDocument h hok]
    refine hkeeps.readText ?_ (hprepared.readText_base hwritten)
    rw [hplace₂, hplace₂]
    exact Ne.symm hfiles.base
  · obtain ⟨e, he, hfile⟩ := mem_modules.1 hf
    refine hkeeps.readText ?_ (hprepared.readText hwritten he hfile fun g hg hsame => ?_)
    · rw [hplace₂, hplace₂]
      exact Ne.symm (hfiles.manifest f hf)
    · rw [← hplace, ← hplace] at hsame
      exact hfiles.modules g hg f hf hsame
  · obtain ⟨hmanifest, hothers⟩ := hfiles.bootstrap (hf ▸ Option.some_ne_none f)
    obtain ⟨⟨staged, bootstrap⟩, g, disk₃, paths, disk₄, b, hstart, -, hpaths, hb, rfl⟩ := generate_steps h hok
    obtain rfl : bootstrap = some f := hf
    have hwritten := writeFiles_takes hpaths
    have hkeeps := updateManifest_takes hb
    have hplace : ∀ p, disk'.place p = disk₃.place p := place_congr (hkeeps.here.trans hwritten.here)
    refine hkeeps.readText ?_ (hwritten.keeps _ _ (begin_takes_bootstrap hstart) fun g hg hsame => ?_)
    · rw [← hkeeps.place, ← hkeeps.place]
      exact hmanifest
    · rw [← hplace, ← hplace] at hsame
      exact absurd hsame.symm (hothers g (List.mem_filter.1 hg).1)

/-- The bootstrap module, if there is one, has the version registered. -/
def IsRegistered (s : Settings) (tag : Text) (disk : Disk) : Prop :=
  ∃ v, disk.readText? s.bootstrapPath = .ok v ∧
    ∀ t, v = some t → (patchBootstrap s.wiring tag t (some s.bootstrapFile)).2 = .ok none

theorem isRegistered_iff : IsRegistered s tag disk ↔ registered s tag [] disk = .ok none := by
  unfold IsRegistered registered
  constructor
  · rintro ⟨v, hv, hpatched⟩
    rw [bootstrapOf_of_read hv]
    cases v with
    | none => rfl
    | some t =>
      simp only [Option.isNone_some, Bool.false_and, Bool.false_eq_true, if_false]
      exact bind_eq_ok.2 ⟨_, rfl, bind_eq_ok.2 ⟨none, hpatched t rfl, rfl⟩⟩
  · intro h
    obtain ⟨found, hfound, hrest⟩ := bind_eq_ok.1 h
    obtain ⟨v, hv, -⟩ := bind_eq_ok.1 hfound
    refine ⟨v, hv, fun t ht => ?_⟩
    subst ht
    rw [bootstrapOf_of_read hv] at hfound
    cases hfound
    obtain ⟨patched, hpatched, hend⟩ := bind_eq_ok.1 hrest
    cases patched with
    | none => exact hpatched
    | some t => cases hend

/-- Each step of a run recognises what it has made: registering the version in the bootstrap module that it was
registered in leaves the module as it is, or else nothing is registered, merging an endpoint into its module gives the
module, and the manifest that was updated is complete. -/
structure Recognised (d : Spec.ApiDocument) (s : Settings) (r : Report) (disk : Disk) : Prop where
  bootstrap : ∀ f, r.bootstrap = some f →
    (patchBootstrap s.wiring d.tag (unifyLineEnds f.content) (some s.bootstrapFile)).2 = .ok none
  noBootstrap : r.bootstrap = none → IsRegistered s d.tag disk
  modules : ∀ es, d.endpoints.2 = .ok es → ∀ e ∈ es, ∀ f ∈ r.modules, Route.endpointFile d.tag e.path = .ok f.path →
    (Route.renderEndpoint (some (unifyLineEnds f.content)) e (some f.path)).2 = .ok (unifyLineEnds f.content)
  manifest : r.manifestUpdated = true → IsComplete s.manifestPath disk

/-- A run that changed nothing. -/
structure IsQuiet (r : Report) : Prop where
  ok : r.isOk = true
  staged : r.staged = []
  bootstrap : r.bootstrap = none
  written : r.written = []
  manifest : r.manifestUpdated = false

theorem isChanged_eq_false {f : GeneratedFile} : f.isChanged = false ↔ f.previous = some f.content := by
  simp [GeneratedFile.isChanged]

/-! ## A second run that changes nothing -/

/-- **Where a second run changes nothing, each step recognises what it has made.** -/
theorem Recognised.of_quiet {r' : Report} (h : (generate d s false).Takes disk r disk') (hleaves : Leaves s r disk')
    (h' : (generate d s false).Takes disk' r' disk') (hquiet : IsQuiet r') : Recognised d s r disk' := by
  obtain ⟨hok', hstaged', hbootstrap', hwritten', hmanifest'⟩ := hquiet
  have hmissing := missingFiles_after h
  obtain ⟨⟨staged, bootstrap⟩, g, disk₁, paths, disk₂, b, hstart, hg, hpaths, hb, rfl⟩ := generate_steps h' hok'
  obtain rfl : staged = [] := hstaged'
  obtain rfl : bootstrap = none := hbootstrap'
  obtain rfl : paths = [] := hwritten'
  obtain rfl : b = false := hmanifest'
  obtain ⟨rfl, hregistered⟩ := (begin_takes_nothing hmissing).1 hstart
  obtain ⟨rfl, hsame⟩ := writeFiles_takes_nothing.1 hpaths
  obtain ⟨-, hcomplete⟩ := updateManifest_takes_nothing.1 hb
  obtain ⟨es, hes, -, -, hall⟩ := generated_ok hg fun e he => outcome_of_isOk hok' he
  refine ⟨fun f hf => ?_, fun _ => isRegistered_iff.2 hregistered, fun es' hes' e he f hf hfile => ?_, fun _ => hcomplete⟩
  · obtain ⟨v, hv, hpatched⟩ := isRegistered_iff.2 hregistered
    exact hpatched _ (Except.ok.inj (hv.symm.trans (readText?_of_readText (hleaves.bootstrap f hf))))
  · obtain rfl := Except.ok.inj (hes.symm.trans hes')
    obtain ⟨res, hres, f', hmerged, rfl⟩ := exists_of_forall₂ hall.flip he
    have hpath : f'.path = f.path := Except.ok.inj (hmerged.file.symm.trans hfile)
    have hmem : f' ∈ g.2.filterMap EndpointResult.file? := List.mem_filterMap.2 ⟨_, hres, rfl⟩
    have hunchanged := isChanged_eq_false.1 (hsame f' (List.mem_cons_of_mem _ hmem))
    have hprevious := hmerged.previous
    rw [hpath, readText?_of_readText (hleaves.modules f hf)] at hprevious
    have hcontent := hmerged.content
    rw [← Except.ok.inj hprevious] at hunchanged hcontent
    rwa [hpath, ← Option.some.inj hunchanged] at hcontent

theorem reportOf_isOk {dryRun : Bool} {staged : List Text} {bootstrap : Option GeneratedFile}
    {g : GeneratedFile × List EndpointResult} (hok : ∀ e ∈ g.2, ∃ f, e.outcome = .ok f) :
    (reportOf tag dryRun staged bootstrap g).isOk = true := by
  rw [Report.isOk, List.isEmpty_iff, Report.failures, List.filterMap_eq_nil_iff]
  intro e he
  obtain ⟨f, hf⟩ := hok e he
  unfold EndpointResult.failure?
  rw [hf]

/-- **A run that finds all as it would make it** gives its report and changes nothing. -/
theorem generate_gives_nothing {g : GeneratedFile × List EndpointResult}
    (hmissing : missingFiles s.target d.tag disk = .ok []) (hregistered : registered s d.tag [] disk = .ok none)
    (hg : generated d s.target disk = .ok g) (hok : ∀ e ∈ g.2, ∃ f, e.outcome = .ok f)
    (hsame : ∀ f ∈ g.1 :: g.2.filterMap EndpointResult.file?, f.isChanged = false)
    (hmanifest : IsComplete s.manifestPath disk) :
    (generate d s false).Gives disk (reportOf d.tag false [] none g) disk := by
  have hbegin := (begin_steady s d.tag false).gives ((begin_takes_nothing hmissing).2 ⟨rfl, hregistered⟩)
  have hwrite := (writeFiles_steady s.target _).gives (writeFiles_takes_nothing.2 ⟨Eq.refl disk, hsame⟩)
  have hupdate := (updateManifest_steady s.manifestPath).gives (updateManifest_takes_nothing.2 ⟨rfl, hmanifest⟩)
  rw [generate_eq]
  refine (prepare_gives hbegin hg).bind ?_
  rw [reportOf_isOk hok]
  exact hwrite.bind (hupdate.bind (.pure _ _))

theorem endsWith_append (s t : Text) : Text.endsWith (s ++ t) t = true := by
  unfold Text.endsWith Text.startsWith
  rw [List.reverse_append, Text.dropLead?_append]
  rfl

theorem formatOf?_endpointFile {path file : Text} (h : Route.endpointFile tag path = .ok file) :
    formatOf? file = some .script := by
  obtain ⟨t, rfl⟩ := endsInJs_of_endpointFile h
  rw [formatOf?_eq_some, Format.isOf, List.any_eq_true]
  exact ⟨".js", List.mem_singleton_self _, endsWith_append _ _⟩

/-- A module that an endpoint could be merged into parses. -/
theorem reasonOf_rendered {path t content : Text} {e : Spec.Endpoint} (hfile : formatOf? path = some .script)
    (h : (Route.renderEndpoint (some t) e (some path)).2 = .ok content) : reasonOf path t = .ok none := by
  unfold reasonOf
  rw [hfile]
  unfold Route.renderEndpoint at h
  change Format.scriptReason path t = _
  unfold Format.scriptReason
  cases hp : Script.Program.parse t (some path) with
  | ok p => rfl
  | error x =>
    rw [Option.mapM_some, hp] at h
    cases h

/-- **What is generated again is what there is**, where merging an endpoint into its module gives the module. -/
theorem generated_again {g : GeneratedFile × List EndpointResult} (hg : generated d target disk = .ok g)
    (hok : ∀ e ∈ g.2, ∃ f, e.outcome = .ok f)
    (hbase : disk'.readText? (target.child g.1.path) = .ok (some g.1.content))
    (hmodules : ∀ f ∈ g.2.filterMap EndpointResult.file?, ∃ t, disk'.readText? (target.child f.path) = .ok (some t) ∧
      ∀ es, d.endpoints.2 = .ok es → ∀ e ∈ es, Route.endpointFile d.tag e.path = .ok f.path →
        (Route.renderEndpoint (some t) e (some f.path)).2 = .ok t) :
    ∃ g', generated d target disk' = .ok g' ∧ (∀ e ∈ g'.2, ∃ f, e.outcome = .ok f) ∧
      ∀ f ∈ g'.1 :: g'.2.filterMap EndpointResult.file?, f.isChanged = false := by
  obtain ⟨es, hes, hfile, hvalid, hall⟩ := generated_ok hg hok
  obtain ⟨-, hcontent, -, hpath⟩ := baseFile_eq_ok.1 hfile
  -- What becomes of each endpoint.
  have hmerged : ∀ e ∈ es, ∃ f, MergedInto target d.tag disk' e f ∧ f.isChanged = false := fun e he => by
    obtain ⟨res, hres, f, hmade, rfl⟩ := exists_of_forall₂ hall.flip he
    obtain ⟨t, ht, hagain⟩ := hmodules f (List.mem_filterMap.2 ⟨_, hres, rfl⟩)
    exact ⟨⟨f.path, t, some t⟩, ⟨hmade.file, ht, hagain es hes e he hmade.file⟩, isChanged_eq_false.2 rfl⟩
  obtain ⟨rs, hrs⟩ := exists_mapM_ok.2 fun e he => by
    obtain ⟨f, hf, -⟩ := hmerged e he
    exact ⟨_, hf.mergedEndpoint⟩
  have hresults : ∀ res ∈ rs, ∃ f, res.outcome = .ok f ∧ f.isChanged = false ∧ reasonOf f.path f.content = .ok none := by
    intro res hres
    obtain ⟨e, he, hmake⟩ := exists_of_forall₂ (mapM_eq_ok.1 hrs) hres
    obtain ⟨f, hf, hunchanged⟩ := hmerged e he
    obtain rfl := Except.ok.inj (hf.mergedEndpoint.symm.trans hmake)
    have hagain := hf.content
    rw [isChanged_eq_false.1 hunchanged] at hagain
    exact ⟨f, rfl, hunchanged, reasonOf_rendered (formatOf?_endpointFile hf.file) hagain⟩
  have hfiles : ∀ f ∈ rs.filterMap EndpointResult.file?, f.isChanged = false ∧ reasonOf f.path f.content = .ok none := by
    intro f hf
    obtain ⟨res, hres, hres'⟩ := List.mem_filterMap.1 hf
    obtain ⟨f', hf', hunchanged, hreason⟩ := hresults res hres
    obtain rfl := Except.ok.inj (hf'.symm.trans (file?_eq_some.1 hres'))
    exact ⟨hunchanged, hreason⟩
  have hchecked : checkedFiles ⟨g.1.path, g.1.content, some g.1.content⟩ rs = .ok rs := by
    refine checkedFiles_of_valid fun f hf => ?_
    obtain hf | hf := List.mem_append.1 hf
    · exact (hfiles f hf).2
    · rw [List.mem_singleton.1 hf]
      exact hvalid
  have hheld : ∃ b, disk'.holds (target.child (baseDocumentFile d.tag)) = .ok b := by
    obtain ⟨b, hb, -⟩ := bind_eq_ok.1 hbase
    exact ⟨b, hpath ▸ hb⟩
  refine ⟨(⟨g.1.path, g.1.content, some g.1.content⟩, rs), generated_eq_ok.2 ⟨es, rs, ?_, hes, hrs, hchecked⟩, ?_, ?_⟩
  · exact baseFile_eq_ok.2 ⟨hheld, hcontent, hpath ▸ hbase, hpath⟩
  · intro res hres
    obtain ⟨f, hf, -⟩ := hresults res hres
    exact ⟨f, hf⟩
  · intro f hf
    obtain rfl | hf := List.mem_cons.1 hf
    · exact isChanged_eq_false.2 rfl
    · exact (hfiles f hf).1

/-- **Where each step recognises what it has made, a second run changes nothing.** -/
theorem Recognised.quiet (h : (generate d s false).Takes disk r disk') (hok : r.isOk = true)
    (hleaves : Leaves s r disk') (hrecognised : Recognised d s r disk') :
    ∃ r', (generate d s false).Gives disk' r' disk' ∧ IsQuiet r' := by
  have hmissing := missingFiles_after h
  obtain ⟨hbootstrap, hnoBootstrap, hmodules, hmanifest⟩ := hrecognised
  obtain ⟨hbase, hleft, hpatched⟩ := hleaves
  have hregistered : IsRegistered s d.tag disk' := by
    cases hr : r.bootstrap with
    | none => exact hnoBootstrap hr
    | some f =>
      refine ⟨_, readText?_of_readText (hpatched f hr), fun t ht => ?_⟩
      cases ht
      exact hbootstrap f hr
  obtain ⟨start, g, disk₁, paths, disk₂, b, -, hg, -, hb, rfl⟩ := generate_steps h hok
  have hcomplete : IsComplete s.manifestPath disk' := by
    cases b with
    | true => exact hmanifest rfl
    | false =>
      obtain ⟨rfl, hcomplete⟩ := updateManifest_takes_nothing.1 hb
      exact hcomplete
  obtain ⟨g', hg', hok', hsame⟩ := generated_again hg (fun e he => outcome_of_isOk hok he)
    (readText?_of_readText hbase) fun f hf =>
      ⟨_, readText?_of_readText (hleft f hf), fun es hes e he hfile => hmodules es hes e he f hf hfile⟩
  refine ⟨_, generate_gives_nothing hmissing (isRegistered_iff.1 hregistered) hg' hok' hsame hcomplete, ?_⟩
  exact ⟨reportOf_isOk hok', rfl, rfl, rfl, rfl⟩

/-- A disk with an app and its manifest, whose version `v1` was staged, but not registered. -/
def settledDisk : Disk where
  items := [(["src"], .folder), (["src", "api"], .folder), (["src", "api", "v1"], .folder),
    (["src", "api", "v1", "index.js"], .file []),
    (["package.json"], .file (String.toUTF8 ("\x7b\"dependencies\":\x7b\"body-parser\":1,\"express\":1,\"express-openapi\":1," ++
      "\"js-yaml\":1,\"multer\":1\x7d,\"devDependencies\":\x7b\"@babel/core\":1,\"@babel/preset-env\":1," ++
      "\"@babel/register\":1,\"nodemon\":1\x7d\x7d")).toList),
    (["src", "index.js"], .file "function initializeApiVersions() {}\n".toUTF8.toList)]

/-- A document whose version is a day. -/
def dated : Spec.ApiDocument where
  info := [("version", .text "2024-01-15")]
  paths := [("/a", some [])]
  source := [(.leaf none (.text "info"), .map none [(.leaf none (.text "version"), .leaf none (.text "2024-01-15"))]),
    (.leaf none (.text "paths"), .map none [(.leaf none (.text "/a"), .map none [])])]

theorem ofTree_dated : (Spec.ApiDocument.ofTree (.map none dated.source) "api.yml").2 = .ok dated :=
  Spec.ofTree_eq_ok.2 ⟨{ info := dated.info, paths := dated.paths }, by cbv, rfl, _, rfl⟩

/-- A disk with an app whose version of a day was staged. -/
def datedDisk : Disk where
  items := [(["src"], .folder), (["src", "api"], .folder), (["src", "api", "v2024-01-15"], .folder),
    (["src", "api", "v2024-01-15", "index.js"], .file []),
    (["src", "index.js"], .file "function initializeApiVersions() {}\n".toUTF8.toList)]

end ApiRoutes.Project
