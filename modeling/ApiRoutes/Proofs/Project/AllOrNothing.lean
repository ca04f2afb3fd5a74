import ApiRoutes.Proofs.Project.Preparation
/-!
# All modules or none

A generation that writes all modules or none decides before it writes the first one.  However it ends,
the files below the folder of the modules are as before, or all modules are written, or the writing
itself broke off between two modules (`generate_all_or_nothing`).  Nothing is taken back then, and
nothing rules it out before: the module of one path can be in the way of the folder that another one
needs (`generate_breaks_off`).
-/
namespace ApiRoutes.Project

open Disk

/-! ## A run of writes -/

/-- The disk has the files, but for those whose place another one of them has with another text. -/
def Holds (target : Path) (fs : List GeneratedFile) (disk : Disk) : Prop :=
  ∀ f ∈ fs, (∀ g ∈ fs, disk.place (target.child g.path) = disk.place (target.child f.path) →
    unifyLineEnds g.content = unifyLineEnds f.content) →
  disk.readText (target.child f.path) = .ok (unifyLineEnds f.content)

/-- What a generation writes, file by file. -/
def writeAll (target : Path) (fs : List GeneratedFile) : Edit Disk (List Text) :=
  fs.mapM fun f => do
    writeAtomically (target.child f.path) f.content
    Edit.log .info ("Wrote " ++ f.path)
    return f.path

theorem writeFiles_eq (target : Path) (fs : List GeneratedFile) :
    writeFiles target fs = writeAll target (fs.filter GeneratedFile.isChanged) := rfl

/-- **A run of writes that fails** has written some of the files, and fails at the next one. -/
theorem writeAll_fails {target : Path} {x : Failure} : ∀ {fs : List GeneratedFile} {d d' : Disk},
    (writeAll target fs).Fails d x d' → ∃ done f rest d₁, fs = done ++ f :: rest ∧ Written target done d d₁ ∧
      (writeAtomically (target.child f.path) f.content).Fails d₁ x d'
  | [], d, d', h => by
    unfold writeAll at h
    rw [List.mapM_nil] at h
    exact absurd h Edit.Fails.not_pure
  | f :: fs, d, d', h => by
    unfold writeAll at h
    rw [List.mapM_cons] at h
    obtain hfirst | ⟨path, d₁, hfirst, hrest⟩ := Edit.Fails.of_bind h
    · obtain hwrite | ⟨u, d₂, -, hlog⟩ := Edit.Fails.of_bind hfirst
      · exact ⟨[], f, fs, d, rfl, .nil target d, hwrite⟩
      · obtain hlog | ⟨u, d₃, -, hpure⟩ := Edit.Fails.of_bind hlog
        · exact absurd hlog Edit.Fails.not_log
        · exact absurd hpure Edit.Fails.not_pure
    · obtain ⟨u, d₂, hwrite, hlog⟩ := Edit.Takes.of_bind hfirst
      obtain ⟨-, rfl⟩ := (Edit.Takes.of_log_bind hlog).eq_of_pure
      obtain hrest | ⟨paths, d₃, -, hpure⟩ := Edit.Fails.of_bind hrest
      · obtain ⟨done, g, rest, d₃, rfl, hdone, hg⟩ := writeAll_fails hrest
        exact ⟨f :: done, g, rest, d₃, rfl, .cons hwrite hdone, hg⟩
      · exact absurd hpure Edit.Fails.not_pure

theorem Written.holdsAll {target : Path} {fs : List GeneratedFile} {d d' : Disk} (h : Written target fs d d') :
    Holds target fs d' := fun f hf hsame => by
  refine h.holds f hf fun g hg hplace => hsame g hg ?_
  rw [place_congr h.here, place_congr h.here, hplace]

/-- A manifest that cannot be updated leaves all that there is. -/
theorem updateManifest_fails {p : Path} {x : Failure} {d d' : Disk} (h : (updateManifest p).Fails d x d') :
    AddsFolders d d' := by
  unfold updateManifest at h
  obtain rfl | ⟨existing, -, h₁⟩ := Edit.Fails.of_same_bind (Edit.Moves.ask _) h
  · exact refl_of _ _
  · obtain rfl | ⟨merged, -, h₂⟩ := Edit.Fails.of_same_bind (Edit.Moves.ofOutcome _) h₁
    · exact refl_of _ _
    · split at h₂
      · exact absurd h₂ Edit.Fails.not_pure
      · obtain hwrite | ⟨u, d₁, -, h₃⟩ := Edit.Fails.of_bind h₂
        · exact writeAtomically_fails hwrite
        · obtain hlog | ⟨u, d₂, -, h₄⟩ := Edit.Fails.of_bind h₃
          · exact absurd hlog Edit.Fails.not_log
          · exact absurd h₄ Edit.Fails.not_pure

theorem updateManifest_keeps (p : Path) (d : Disk) : (updateManifest p).MovesFrom (KeepsBut (d.place p)) d :=
  .of_ends (fun _ _ ht => updateManifest_takes ht) fun _ _ hf => (updateManifest_fails hf).grows.keepsBut _

/-! ## The whole -/

/-- The place is below the folder of the modules. -/
def IsBelow (disk : Disk) (s : Settings) (tag : Text) (m : Location) : Prop :=
  disk.place (modulesFolder s.target tag) <+: m

/-- The writing of the modules broke off: some of those that change are written, the next one could not
be, and no other file below their folder is touched. -/
structure BrokeOff (s : Settings) (tag : Text) (r : Report) (x : Failure) (disk disk' : Disk)
    (done : List GeneratedFile) (f : GeneratedFile) (rest : List GeneratedFile) : Prop where
  order : r.modules.filter GeneratedFile.isChanged = done ++ f :: rest
  started : done ≠ []
  holds : Holds s.target done disk'
  fails : ∃ disk₁, (writeAtomically (s.target.child f.path) f.content).Fails disk₁ x disk'
  others : SameFiles (fun m => IsBelow disk s tag m ∧ ∀ g ∈ done, m ≠ disk.place (s.target.child g.path)) disk disk'

theorem Holds.grows {target : Path} {fs : List GeneratedFile} {d d' : Disk} (h : Holds target fs d) (hd : Grows d d') :
    Holds target fs d' := fun f hf hsame => by
  refine hd.readText (h f hf fun g hg hplace => hsame g hg ?_)
  rw [place_congr hd.here, place_congr hd.here, hplace]

theorem place_module_ne {d : Spec.ApiDocument} {target : Path} {disk : Disk} {r : Report} (h : Prepared d target disk r)
    {f : GeneratedFile} (hf : f ∈ r.modules) :
    disk.place (target.child f.path) ≠ disk.place (target.child r.baseDocument.path) := by
  obtain ⟨e, he, hout⟩ := mem_modules.1 hf
  obtain ⟨-, ⟨p, hp⟩, -⟩ := h.modules e he f hout
  rw [h.basePath]
  exact place_endpointFile_ne hp

/-- What a write that fails leaves below the folder of the modules. -/
theorem writeFiles_fails {d : Spec.ApiDocument} {s : Settings} {tag : Text} {r : Report} {x : Failure}
    {disk disk' : Disk} (hr : Prepared d s.target disk r)
    (hbase : ¬ IsBelow disk s tag (disk.place (s.target.child r.baseDocument.path)))
    (h : (writeFiles s.target (r.baseDocument :: r.modules)).Fails disk x disk') :
    SameFiles (IsBelow disk s tag) disk disk' ∨ ∃ done f rest, BrokeOff s tag r x disk disk' done f rest := by
  rw [writeFiles_eq] at h
  obtain ⟨done, f, rest, disk₁, hsplit, hdone, hf⟩ := writeAll_fails h
  have hadds := writeAtomically_fails hf
  have hfiles : SameFiles (fun m => ∀ g ∈ done, m ≠ disk.place (s.target.child g.path)) disk disk' :=
    hdone.files.trans hadds.sameFiles
  have hholds : Holds s.target done disk' := hdone.holdsAll.grows hadds.grows
  by_cases hchanged : r.baseDocument.isChanged
  · rw [List.filter_cons_of_pos hchanged] at hsplit
    cases done with
    | nil => exact .inl (hfiles.mono fun m _ => by simp)
    | cons b done =>
      obtain ⟨rfl, hmodules⟩ := List.cons.inj hsplit
      have hothers : SameFiles (fun m => IsBelow disk s tag m ∧ ∀ g ∈ done, m ≠ disk.place (s.target.child g.path))
          disk disk' := hfiles.mono fun m hm => by
        rw [List.forall_mem_cons]
        exact ⟨fun heq => hbase (heq ▸ hm.1), hm.2⟩
      by_cases hempty : done = []
      · exact .inl (hothers.mono fun m hm => ⟨hm, by simp [hempty]⟩)
      · refine .inr ⟨done, f, rest, hmodules, hempty, fun g hg hsame => ?_, ⟨disk₁, hf⟩, hothers⟩
        refine hholds g (List.mem_cons_of_mem _ hg) fun g' hg' hplace => ?_
        obtain rfl | hg' := List.mem_cons.1 hg'
        · have hmem : g ∈ r.modules.filter GeneratedFile.isChanged := by
            rw [hmodules]
            exact List.mem_append_left _ hg
          rw [place_congr hadds.here, place_congr hadds.here, place_congr hdone.here, place_congr hdone.here] at hplace
          exact absurd hplace.symm (place_module_ne hr (List.mem_filter.1 hmem).1)
        · exact hsame g' hg' hplace
  · rw [List.filter_cons_of_neg hchanged] at hsplit
    by_cases hempty : done = []
    · exact .inl (hfiles.mono fun m _ => by simp [hempty])
    · exact .inr ⟨done, f, rest, hsplit, hempty, hholds, ⟨disk₁, hf⟩, hfiles.mono fun m hm => hm.2⟩

/-- All modules are on the disk after all files were written. -/
theorem Prepared.holds {d : Spec.ApiDocument} {target : Path} {disk disk' : Disk} {r : Report}
    (h : Prepared d target disk r)
    (hwritten : Written target ((r.baseDocument :: r.modules).filter GeneratedFile.isChanged) disk disk') :
    Holds target r.modules disk' := fun f hf hsame => by
  obtain ⟨e, he, hout⟩ := mem_modules.1 hf
  refine h.readText hwritten he hout fun g hg hplace => hsame g hg ?_
  rw [place_congr hwritten.here, place_congr hwritten.here, hplace]

/-- Updating the manifest keeps the modules, when its place is none of theirs. -/
theorem Holds.updateManifest {s : Settings} {fs : List GeneratedFile} {d d' : Disk} (h : Holds s.target fs d)
    (hd : KeepsBut (d.place s.manifestPath) d d')
    (hmanifest : ∀ f ∈ fs, d.place (s.target.child f.path) ≠ d.place s.manifestPath) : Holds s.target fs d' :=
  fun f hf hsame => by
    refine hd.readText (hmanifest f hf) (h f hf fun g hg hplace => hsame g hg ?_)
    rw [hd.place, hd.place, hplace]

theorem prepare_tag {d : Spec.ApiDocument} {s : Settings} {dryRun : Bool} {disk disk' : Disk} {r : Report}
    (h : (prepare d s dryRun).Takes disk r disk') : r.tag = d.tag := by
  obtain ⟨start, g, -, -, rfl⟩ := prepare_takes_steps h
  rfl

theorem isBelow_congr {s : Settings} {tag : Text} {disk disk' : Disk} (h : disk'.here = disk.here) :
    IsBelow disk' s tag = IsBelow disk s tag := by
  unfold IsBelow
  rw [place_congr h]

/-- **A preparation touches no file below the folder of the modules**, however it ends. -/
theorem prepare_keeps_modules {d : Spec.ApiDocument} {s : Settings} {dryRun : Bool} {disk : Disk}
    (hbootstrap : ¬ IsBelow disk s d.tag (disk.place s.bootstrapPath)) :
    (prepare d s dryRun).MovesFrom (SameFiles (IsBelow disk s d.tag)) disk := by
  refine prepare_files (fun f hf m hm heq => ?_) fun m hm heq => hbootstrap (heq ▸ hm)
  exact skeleton_not_below (not_mem_tag d) f hf (heq ▸ hm)

theorem BrokeOff.after {s : Settings} {tag : Text} {r : Report} {x : Failure} {disk disk₁ disk' : Disk}
    {done : List GeneratedFile} {f : GeneratedFile} {rest : List GeneratedFile}
    (h : SameFiles (IsBelow disk s tag) disk disk₁) (hbroke : BrokeOff s tag r x disk₁ disk' done f rest) :
    BrokeOff s tag r x disk disk' done f rest where
  order := hbroke.order
  started := hbroke.started
  holds := hbroke.holds
  fails := hbroke.fails
  others := by
    have hothers := hbroke.others
    simp only [isBelow_congr h.here, h.place] at hothers
    exact (h.mono fun m hm => hm.1).trans hothers

/-- What the end of a generation leaves below the folder of the modules when no endpoint failed. -/
theorem conclude_ends {d : Spec.ApiDocument} {s : Settings} {disk disk' : Disk} {r : Report}
    (hr : Prepared d s.target disk r) (htag : r.tag = d.tag)
    (hmanifest : ¬ IsBelow disk s d.tag (disk.place s.manifestPath)) :
    (∀ r', (conclude s r).Takes disk r' disk' → Holds s.target r.modules disk') ∧
    ∀ x, (conclude s r).Fails disk x disk' → SameFiles (IsBelow disk s d.tag) disk disk' ∨
      Holds s.target r.modules disk' ∨ ∃ done f rest, BrokeOff s d.tag r x disk disk' done f rest := by
  have hplaces : ∀ f ∈ r.modules, disk.place (s.target.child f.path) ≠ disk.place s.manifestPath := fun f hf heq => by
    obtain ⟨e, he, hout⟩ := mem_modules.1 hf
    obtain ⟨-, ⟨p, hp⟩, -⟩ := hr.modules e he f hout
    obtain ⟨names, -, -, hplace⟩ : ∃ names, names ≠ [] ∧ Path.up ∉ names ∧
        disk.place (s.target.child f.path) = disk.place (modulesFolder s.target d.tag) ++ names :=
      place_endpointFile (htag ▸ hp)
    exact hmanifest ⟨names, hplace.symm.trans heq⟩
  have hwrites : ∀ {paths disk₁}, (writeFiles s.target (r.baseDocument :: r.modules)).Takes disk paths disk₁ →
      ∀ disk₂, KeepsBut (disk₁.place s.manifestPath) disk₁ disk₂ → Holds s.target r.modules disk₂ := by
    intro paths disk₁ hpaths disk₂ hkeeps
    have hwritten := writeFiles_takes hpaths
    refine (hr.holds hwritten).updateManifest hkeeps fun f hf => ?_
    rw [place_congr hwritten.here, place_congr hwritten.here]
    exact hplaces f hf
  unfold conclude
  refine ⟨fun r' h => ?_, fun x h => ?_⟩
  · obtain ⟨paths, disk₁, hpaths, h₁⟩ := Edit.Takes.of_bind h
    obtain ⟨b, disk₂, hb, h₂⟩ := Edit.Takes.of_bind h₁
    obtain ⟨-, rfl⟩ := h₂.eq_of_pure
    exact hwrites hpaths _ (hb.movesFrom (updateManifest_keeps _ _))
  · have hbase : ¬ IsBelow disk s d.tag (disk.place (s.target.child r.baseDocument.path)) := by
      rw [hr.basePath, htag]
      exact baseDocument_not_below (not_mem_tag d)
    obtain h₁ | ⟨paths, disk₁, hpaths, h₁⟩ := Edit.Fails.of_bind h
    · obtain hsame | hbroke := writeFiles_fails hr hbase h₁
      · exact .inl hsame
      · exact .inr (.inr hbroke)
    · obtain h₂ | ⟨b, disk₂, -, h₂⟩ := Edit.Fails.of_bind h₁
      · exact .inr (.inl (hwrites hpaths _ (h₂.movesFrom (updateManifest_keeps _ _))))
      · exact absurd h₂ Edit.Fails.not_pure

/-- **However a generation ends that is to write all modules or none**: the files below the folder of
the modules are as they were; or every endpoint succeeded and the disk has all modules; or the writing
broke off after a module was written. -/
theorem generate_all_or_nothing {d : Spec.ApiDocument} {s : Settings} {disk disk' : Disk} {result : Outcome Report}
    {logs : List Record} (h : (generate d s false).perform disk = (disk', result, logs))
    (hpolicy : s.policy = .allOrNothing) (hbootstrap : ¬ IsBelow disk s d.tag (disk.place s.bootstrapPath))
    (hmanifest : ¬ IsBelow disk s d.tag (disk.place s.manifestPath)) :
    SameFiles (IsBelow disk s d.tag) disk disk' ∨
      ∃ r, ((prepare d s false).perform disk).2.1 = .ok r ∧ r.isOk = true ∧
        (∃ es, d.endpoints.2 = .ok es ∧ r.endpoints.map (·.endpoint) = es.map (·.path)) ∧
        (Holds s.target r.modules disk' ∨
          ∃ x done f rest, result = .error x ∧ BrokeOff s d.tag r x disk disk' done f rest) := by
  rw [generate_eq] at h
  have hkeeps : (prepare d s false).MovesFrom (SameFiles (IsBelow disk s d.tag)) disk := prepare_keeps_modules hbootstrap
  -- What there is after the preparation, when it succeeds.
  have hrest : ∀ r disk₁, (prepare d s false).Takes disk r disk₁ →
      ((prepare d s false).perform disk).2.1 = .ok r ∧ SameFiles (IsBelow disk s d.tag) disk disk₁ ∧
        Prepared d s.target disk₁ r ∧ r.tag = d.tag ∧
        ¬ IsBelow disk₁ s d.tag (disk₁.place s.manifestPath) := fun r disk₁ hr => by
    have hfiles := hr.movesFrom hkeeps
    refine ⟨((prepare_steady d s false).takes_iff.1 hr).2, hfiles, prepare_takes hr, prepare_tag hr, ?_⟩
    rw [isBelow_congr hfiles.here, hfiles.place]
    exact hmanifest
  cases result with
  | error x =>
    obtain hfails | ⟨r, disk₁, hr, hfails⟩ := Edit.Fails.of_bind (Edit.Fails.of_perform h)
    · exact .inl (hfails.movesFrom hkeeps)
    · obtain ⟨hresult, hfiles, hprepared, htag, hplace⟩ := hrest r disk₁ hr
      split at hfails
      · obtain hlog | ⟨u, disk₂, -, hpure⟩ := Edit.Fails.of_bind hfails
        · exact absurd hlog Edit.Fails.not_log
        · exact absurd hpure Edit.Fails.not_pure
      · rename_i hnot
        have hok : r.isOk = true := by simpa [hpolicy] using hnot
        obtain hsame | hholds | ⟨done, f, rest, hbroke⟩ := (conclude_ends hprepared htag hplace).2 x hfails
        · rw [isBelow_congr hfiles.here] at hsame
          exact .inl (hfiles.trans hsame)
        · exact .inr ⟨r, hresult, hok, hprepared.endpoints, .inl hholds⟩
        · exact .inr ⟨r, hresult, hok, hprepared.endpoints, .inr ⟨x, done, f, rest, rfl, hbroke.after hfiles⟩⟩
  | ok r' =>
    obtain ⟨r, disk₁, hr, htakes⟩ := Edit.Takes.of_bind (Edit.Takes.of_perform h)
    obtain ⟨hresult, hfiles, hprepared, htag, hplace⟩ := hrest r disk₁ hr
    split at htakes
    · obtain ⟨-, rfl⟩ := (Edit.Takes.of_log_bind htakes).eq_of_pure
      exact .inl hfiles
    · rename_i hnot
      have hok : r.isOk = true := by simpa [hpolicy] using hnot
      exact .inr ⟨r, hresult, hok, hprepared.endpoints, .inl ((conclude_ends hprepared htag hplace).1 r' htakes)⟩

/-- A document whose second path needs a folder where the module of the first one is. -/
def entangled : Spec.ApiDocument where
  paths := [("/a", some []), ("/a.js/b", some [])]

theorem generate_all_or_nothing_sample : ∃ disk result logs,
    (generate entangled { bootstrapFile := "main.js" } false).perform stagedDisk = (disk, result, logs) ∧
    (SameFiles (IsBelow stagedDisk { bootstrapFile := "main.js" } entangled.tag) stagedDisk disk ∨
      ∃ r, ((prepare entangled { bootstrapFile := "main.js" } false).perform stagedDisk).2.1 = .ok r ∧ r.isOk = true ∧
        (∃ es, entangled.endpoints.2 = .ok es ∧ r.endpoints.map (·.endpoint) = es.map (·.path)) ∧
        (Holds {} r.modules disk ∨ ∃ x done f rest, result = .error x ∧
          BrokeOff { bootstrapFile := "main.js" } entangled.tag r x stagedDisk disk done f rest)) := by
  generalize hp : (generate entangled { bootstrapFile := "main.js" } false).perform stagedDisk = run
  obtain ⟨disk, result, logs⟩ := run
  exact ⟨disk, result, logs, rfl,
    generate_all_or_nothing hp rfl (by unfold IsBelow; decide +kernel) (by unfold IsBelow; decide +kernel)⟩

/-- The module of `/a` is written before the folder for that of `/a.js/b` is found to be a file. -/
theorem generate_breaks_off : ¬ ∀ (d : Spec.ApiDocument) (s : Settings) (disk disk' : Disk) (result : Outcome Report)
    (logs : List Record), (generate d s false).perform disk = (disk', result, logs) → s.policy = .allOrNothing →
      ¬ IsBelow disk s d.tag (disk.place s.bootstrapPath) →
      SameFiles (IsBelow disk s d.tag) disk disk' ∨
        ∃ r, ((prepare d s false).perform disk).2.1 = .ok r ∧ r.isOk = true ∧
          ∀ f ∈ r.modules, disk'.readText (s.target.child f.path) = .ok f.content := by
  intro hall
  have hends := hall entangled { bootstrapFile := "main.js" } stagedDisk
  generalize hp : (generate entangled { bootstrapFile := "main.js" } false).perform stagedDisk = run at hends
  generalize hq : ((prepare entangled { bootstrapFile := "main.js" } false).perform stagedDisk).2.1 = report at hends
  have hplace : IsBelow stagedDisk { bootstrapFile := "main.js" } entangled.tag
      [("src" : Text), ("api" : Text), ("v1" : Text), ("paths" : Text), ("a.js" : Text)] := by
    unfold IsBelow
    decide +kernel
  have hwritten : (run.1.item? [("src" : Text), ("api" : Text), ("v1" : Text), ("paths" : Text), ("a.js" : Text)]).any
      (fun i => i != .folder) = true := by
    rw [← hp]
    decide +kernel
  have hlost : (report.toOption.any fun r => r.modules.any fun f =>
      (run.1.readText (Path.child {} f.path)).toOption != some f.content) = true := by
    rw [← hq, ← hp]
    decide +kernel
  obtain ⟨disk, result, logs⟩ := run
  obtain hsame | ⟨r, rfl, -, hheld⟩ := hends disk result logs rfl rfl (by unfold IsBelow; decide +kernel)
  · obtain ⟨i, hi, hfile⟩ := (Option.any_eq_true _ _).1 hwritten
    cases i with
    | folder => exact absurd hfile (by decide)
    | file bytes =>
      have hbefore : stagedDisk.item? [("src" : Text), ("api" : Text), ("v1" : Text), ("paths" : Text), ("a.js" : Text)] =
          none := by decide +kernel
      rw [(hsame.files _ hplace bytes).1 hi] at hbefore
      cases hbefore
  · simp only [Except.toOption, Option.any_some, List.any_eq_true, bne_iff_ne] at hlost
    obtain ⟨f, hf, hmissing⟩ := hlost
    have hread := hheld f hf
    exact hmissing (by rw [show Path.child {} f.path = Path.child (Settings.target {}) f.path from rfl, hread])

end ApiRoutes.Project
