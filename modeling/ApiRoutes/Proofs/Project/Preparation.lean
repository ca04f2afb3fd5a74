import ApiRoutes.Proofs.Project.Generation
import ApiRoutes.Proofs.Steady
/-!
# What a generation prepares

After the skeleton is staged and the version registered, a generation only looks at the disk until it
writes: what it is going to write is a function of the document, the folder of the app and the disk
(`generated`).  `prepare_takes_steps` and `prepare_gives` take the preparation apart into its two
changes and this function.
-/
namespace ApiRoutes.Project

open Disk

/-- The base document of a version, as it is on a disk and as it will be. -/
def baseFile (d : Spec.ApiDocument) (target : Path) (tag : Text) (disk : Disk) : Outcome GeneratedFile := do
  let _ ← disk.holds (target.child (baseDocumentFile tag))
  let content ← renderBaseDocument d
  let previous ← disk.readText? (target.child (baseDocumentFile tag))
  return ⟨baseDocumentFile tag, content, previous⟩

/-- A module with an endpoint merged in. -/
def mergedFile (target : Path) (path : Text) (e : Spec.Endpoint) (disk : Disk) : Outcome GeneratedFile := do
  let previous ← disk.readText? (target.child path)
  let content ← (Route.renderEndpoint previous e (some path)).2
  return ⟨path, content, previous⟩

/-- What is reported of an endpoint.  A failure that nobody expects is not reported, it ends the run. -/
def reported (e : Spec.Endpoint) (path : Option Text) (r : Outcome GeneratedFile) : Outcome EndpointResult :=
  match r with
  | .ok f => .ok ⟨e.path, path, .ok f⟩
  | .error f => if f.isExpected then .ok ⟨e.path, path, .error f⟩ else .error f

/-- What becomes of an endpoint before it is checked. -/
def mergedEndpoint (target : Path) (tag : Text) (e : Spec.Endpoint) (disk : Disk) : Outcome EndpointResult :=
  match Route.endpointFile tag e.path with
  | .error f => reported e none (.error f)
  | .ok path => reported e (some path) (mergedFile target path e disk)

/-- A result, in the light of what is wrong with generated files. -/
def inLightOf (faults : List (Text × Text)) (r : EndpointResult) : EndpointResult :=
  match r.file?.bind fun f => reasonFor? f.path faults with
  | none => r
  | some reason => { r with outcome := .error (.brokenModule reason) }

/-- The results after all files are checked. -/
def checkedFiles (base : GeneratedFile) (rs : List EndpointResult) : Outcome (List EndpointResult) := do
  let faults ← invalidFiles (textsByPath (rs.filterMap EndpointResult.file? ++ [base]))
  match reasonFor? base.path faults with
  | some reason => .error (.brokenOutput base.path reason)
  | none => .ok (rs.map (inLightOf faults))

/-- A check does not look at what there was. -/
theorem checkedFiles_previous (base : GeneratedFile) (previous : Option Text) (rs : List EndpointResult) :
    checkedFiles { base with previous } rs = checkedFiles base rs := by
  unfold checkedFiles textsByPath
  simp only [List.foldl_append, List.foldl_cons, List.foldl_nil]

/-- What a generation is going to write: the base document, and what became of each endpoint. -/
def generated (d : Spec.ApiDocument) (target : Path) (disk : Disk) : Outcome (GeneratedFile × List EndpointResult) := do
  let base ← baseFile d target d.tag disk
  let es ← d.endpoints.2
  let rs ← es.mapM fun e => mergedEndpoint target d.tag e disk
  let rs ← checkedFiles base rs
  return (base, rs)

theorem baseFile_eq_ok {d : Spec.ApiDocument} {target : Path} {tag : Text} {disk : Disk} {f : GeneratedFile} :
    baseFile d target tag disk = .ok f ↔ (∃ b, disk.holds (target.child (baseDocumentFile tag)) = .ok b) ∧
      renderBaseDocument d = .ok f.content ∧ disk.readText? (target.child (baseDocumentFile tag)) = .ok f.previous ∧
      f.path = baseDocumentFile tag := by
  unfold baseFile
  simp only [bind_eq_ok]
  constructor
  · rintro ⟨b, hb, content, hcontent, previous, hprevious, h⟩
    cases h
    exact ⟨⟨b, hb⟩, hcontent, hprevious, rfl⟩
  · obtain ⟨path, content, previous⟩ := f
    rintro ⟨⟨b, hb⟩, hcontent, hprevious, rfl⟩
    exact ⟨b, hb, content, hcontent, previous, hprevious, rfl⟩

/-- The file is the module of an endpoint, with the endpoint merged into what there is. -/
structure MergedInto (target : Path) (tag : Text) (disk : Disk) (e : Spec.Endpoint) (f : GeneratedFile) : Prop where
  file : Route.endpointFile tag e.path = .ok f.path
  previous : disk.readText? (target.child f.path) = .ok f.previous
  content : (Route.renderEndpoint f.previous e (some f.path)).2 = .ok f.content

theorem MergedInto.mergedEndpoint {target : Path} {tag : Text} {disk : Disk} {e : Spec.Endpoint} {f : GeneratedFile}
    (h : MergedInto target tag disk e f) : mergedEndpoint target tag e disk = .ok ⟨e.path, some f.path, .ok f⟩ := by
  have hmerged : mergedFile target f.path e disk = .ok f :=
    bind_eq_ok.2 ⟨f.previous, h.previous, bind_eq_ok.2 ⟨f.content, h.content, rfl⟩⟩
  unfold Project.mergedEndpoint
  rw [h.file]
  simp only [hmerged, reported]

/-- **A result is that of its endpoint**, and has the module that the endpoint was merged into. -/
theorem mergedEndpoint_ok {target : Path} {tag : Text} {disk : Disk} {e : Spec.Endpoint} {r : EndpointResult}
    (h : mergedEndpoint target tag e disk = .ok r) :
    r.endpoint = e.path ∧ ∀ f, r.outcome = .ok f → MergedInto target tag disk e f ∧ r.path = some f.path := by
  have hreported : ∀ {path : Option Text} {o : Outcome GeneratedFile}, reported e path o = .ok r →
      r.endpoint = e.path ∧ r.path = path ∧ ∀ f, r.outcome = .ok f → o = .ok f := by
    intro path o h
    unfold reported at h
    split at h
    · cases h
      exact ⟨rfl, rfl, fun f hf => hf⟩
    · split at h
      · cases h
        exact ⟨rfl, rfl, fun f hf => by cases hf⟩
      · cases h
  unfold mergedEndpoint at h
  cases hfile : Route.endpointFile tag e.path with
  | error x =>
    rw [hfile] at h
    obtain ⟨hendpoint, -, hnone⟩ := hreported h
    exact ⟨hendpoint, fun f hf => by cases hnone f hf⟩
  | ok file =>
    rw [hfile] at h
    obtain ⟨hendpoint, hpath, hmerged⟩ := hreported h
    refine ⟨hendpoint, fun f hf => ?_⟩
    obtain ⟨previous, hprevious, hrest⟩ := bind_eq_ok.1 (hmerged f hf)
    obtain ⟨content, hcontent, hend⟩ := bind_eq_ok.1 hrest
    cases hend
    exact ⟨⟨hfile, hprevious, hcontent⟩, hpath⟩

/-- **All that was generated went well**: the base document, the endpoints, their merges, the checks. -/
theorem generated_eq_ok {d : Spec.ApiDocument} {target : Path} {disk : Disk} {g : GeneratedFile × List EndpointResult} :
    generated d target disk = .ok g ↔ ∃ es rs, baseFile d target d.tag disk = .ok g.1 ∧ d.endpoints.2 = .ok es ∧
      (es.mapM fun e => mergedEndpoint target d.tag e disk) = .ok rs ∧ checkedFiles g.1 rs = .ok g.2 := by
  unfold generated
  simp only [bind_eq_ok]
  constructor
  · rintro ⟨base, hbase, es, hes, rs, hrs, rs', hrs', h⟩
    cases h
    exact ⟨es, rs, hbase, hes, hrs, hrs'⟩
  · obtain ⟨base, rs'⟩ := g
    rintro ⟨es, rs, hbase, hes, hrs, hrs'⟩
    exact ⟨base, hbase, es, hes, rs, hrs, rs', hrs', rfl⟩

/-- The report of a preparation. -/
def reportOf (tag : Text) (dryRun : Bool) (staged : List Text) (bootstrap : Option GeneratedFile)
    (g : GeneratedFile × List EndpointResult) : Report where
  tag := tag
  dryRun := dryRun
  staged := staged
  bootstrap := bootstrap
  baseDocument := g.1
  endpoints := g.2
  written := if dryRun then [] else (bootstrap.map (·.path)).toList

/-! ## The steps that look -/

theorem baseDocument_looks (d : Spec.ApiDocument) (target : Path) (tag : Text) :
    Edit.Looks (baseFile d target tag) (baseDocument d target tag) := by
  unfold baseDocument
  refine (Edit.Looks.ask _).bind fun b => ?_
  have hrest : Edit.Looks (fun disk => do
        let content ← renderBaseDocument d
        let previous ← disk.readText? (target.child (baseDocumentFile tag))
        return ⟨baseDocumentFile tag, content, previous⟩)
      (do
        let content ← Edit.ofOutcome (renderBaseDocument d)
        let previous ← Edit.ask (·.readText? (target.child (baseDocumentFile tag)))
        return ⟨baseDocumentFile tag, content, previous⟩ : Edit Disk GeneratedFile) :=
    (Edit.Looks.ofOutcome _).bind fun _ => (Edit.Looks.ask _).bind fun _ => Edit.Looks.pure _
  cases b
  · exact hrest
  · exact Edit.Looks.log_bind _ _ hrest

theorem mergeIntoFile_looks (target : Path) (path : Text) (e : Spec.Endpoint) :
    Edit.Looks (mergedFile target path e) (mergeIntoFile target path e) :=
  (Edit.Looks.ask _).bind fun _ => (Edit.Looks.ofLogged _).bind fun _ => Edit.Looks.pure _

theorem failedEndpoint_looks (e : Spec.Endpoint) (path : Option Text) (f : Failure) :
    Edit.Looks (fun _ => reported e path (.error f)) (failedEndpoint e path f) := by
  have hreported : reported e path (.error f) =
      if f.isExpected then .ok ⟨e.path, path, .error f⟩ else .error f := rfl
  unfold failedEndpoint
  rw [hreported]
  cases f.isExpected
  · exact Edit.Looks.throw f
  · exact Edit.Looks.log_bind _ _ (Edit.Looks.pure _)

theorem mergeEndpointFile_looks (target : Path) (tag : Text) (e : Spec.Endpoint) :
    Edit.Looks (mergedEndpoint target tag e) (mergeEndpointFile target tag e) := by
  unfold mergeEndpointFile mergedEndpoint
  cases hfile : Route.endpointFile tag e.path with
  | error f => exact failedEndpoint_looks e none f
  | ok path =>
    refine (((mergeIntoFile_looks target path e).bind fun _ => Edit.Looks.pure _).tryCatch
      fun f => failedEndpoint_looks e (some path) f).congr fun disk => ?_
    simp only
    cases mergedFile target path e disk <;> rfl

theorem checkedResult_looks (faults : List (Text × Text)) (r : EndpointResult) :
    Edit.Looks (fun _ => .ok (inLightOf faults r)) (checkedResult faults r) := by
  obtain ⟨endpoint, path, x | f⟩ := r
  · exact Edit.Looks.pure _
  · unfold checkedResult inLightOf EndpointResult.file?
    simp only [Option.bind_some]
    cases reasonFor? f.path faults with
    | none => exact Edit.Looks.pure _
    | some reason => exact Edit.Looks.log_bind _ _ (Edit.Looks.pure _)

theorem mapM_ok_eq_map {α β : Type} (g : α → β) : ∀ xs : List α, (xs.mapM fun x => (.ok (g x) : Outcome β)) = .ok (xs.map g)
  | [] => rfl
  | x :: xs => by
    rw [List.mapM_cons, mapM_ok_eq_map g xs]
    rfl

theorem checkFiles_looks (base : GeneratedFile) (rs : List EndpointResult) :
    Edit.Looks (fun _ => checkedFiles base rs) (checkFiles base rs) := by
  unfold checkFiles checkedFiles
  refine (Edit.Looks.ofOutcome _).bind fun faults => ?_
  cases reasonFor? base.path faults with
  | some reason => exact Edit.Looks.throw _
  | none =>
    refine (Edit.Looks.mapM (checkedResult_looks faults) rs).congr fun _ => ?_
    exact (mapM_ok_eq_map _ rs).symm

/-- The steps of a preparation between the two changes and the report. -/
def describe (d : Spec.ApiDocument) (target : Path) : Edit Disk (GeneratedFile × List EndpointResult) := do
  let base ← baseDocument d target d.tag
  let es ← Edit.ofLogged d.endpoints
  let rs ← es.mapM (mergeEndpointFile target d.tag)
  let rs ← checkFiles base rs
  return (base, rs)

theorem describe_looks (d : Spec.ApiDocument) (target : Path) : Edit.Looks (generated d target) (describe d target) :=
  (baseDocument_looks d target d.tag).bind fun _ => (Edit.Looks.ofLogged _).bind fun es =>
    (Edit.Looks.mapM (mergeEndpointFile_looks target d.tag) es).bind fun _ =>
      (checkFiles_looks _ _).bind fun _ => Edit.Looks.pure _

/-! ## The preparation -/

/-- The changes of a preparation. -/
def begin (s : Settings) (tag : Text) (dryRun : Bool) : Edit Disk (List Text × Option GeneratedFile) := do
  let staged ← stageSkeleton s.target tag dryRun
  let bootstrap ← registerVersion s tag dryRun staged
  return (staged, bootstrap)

/-- **A preparation is its changes, and then what is generated from the disk that they leave.** -/
theorem prepare_eq (d : Spec.ApiDocument) (s : Settings) (dryRun : Bool) :
    prepare d s dryRun = (do
      let start ← begin s d.tag dryRun
      let g ← describe d s.target
      return reportOf d.tag dryRun start.1 start.2 g) := by
  unfold prepare begin describe
  simp only [bind_assoc, pure_bind]
  rfl

theorem prepare_takes_steps {d : Spec.ApiDocument} {s : Settings} {dryRun : Bool} {disk disk' : Disk} {r : Report}
    (h : (prepare d s dryRun).Takes disk r disk') :
    ∃ start g, (begin s d.tag dryRun).Takes disk start disk' ∧ generated d s.target disk' = .ok g ∧
      r = reportOf d.tag dryRun start.1 start.2 g := by
  rw [prepare_eq] at h
  obtain ⟨start, disk₁, hstart, h₁⟩ := Edit.Takes.of_bind h
  obtain ⟨g, disk₂, hg, h₂⟩ := Edit.Takes.of_bind h₁
  obtain ⟨hg, rfl⟩ := (describe_looks d s.target).takes hg
  obtain ⟨rfl, rfl⟩ := h₂.eq_of_pure
  exact ⟨start, g, hstart, hg, rfl⟩

theorem prepare_gives {d : Spec.ApiDocument} {s : Settings} {dryRun : Bool} {disk disk' : Disk}
    {start : List Text × Option GeneratedFile} {g : GeneratedFile × List EndpointResult}
    (hstart : (begin s d.tag dryRun).Gives disk start disk') (hg : generated d s.target disk' = .ok g) :
    (prepare d s dryRun).Gives disk (reportOf d.tag dryRun start.1 start.2 g) disk' := by
  rw [prepare_eq]
  exact hstart.bind (((describe_looks d s.target).gives hg).bind (.pure _ _))

/-! ## The whole -/

/-- What a generation does after all was prepared. -/
def conclude (s : Settings) (r : Report) : Edit Disk Report := do
  let written ← writeFiles s.target (r.baseDocument :: r.modules)
  let manifestUpdated ← updateManifest s.manifestPath
  return { r with written := r.written ++ written, manifestUpdated }

theorem generate_eq (d : Spec.ApiDocument) (s : Settings) :
    generate d s false = (do
      let r ← prepare d s false
      if !r.isOk && decide (s.policy = .allOrNothing) then
        Edit.log .error (Text.ofNat r.failures.length ++ " endpoint(s) failed, no route module written")
        return r
      else conclude s r) := by
  unfold generate conclude
  simp only [Bool.false_eq_true, if_false]

/-- What a generation does after the version was registered. -/
def proceed (d : Spec.ApiDocument) (s : Settings) (start : List Text × Option GeneratedFile) : Edit Disk Report := do
  let g ← describe d s.target
  let r := reportOf d.tag false start.1 start.2 g
  if !r.isOk && decide (s.policy = .allOrNothing) then
    Edit.log .error (Text.ofNat r.failures.length ++ " endpoint(s) failed, no route module written")
    return r
  else conclude s r

theorem generate_eq_staged (d : Spec.ApiDocument) (s : Settings) :
    generate d s false = stageSkeleton s.target d.tag false >>= fun staged =>
      registerVersion s d.tag false staged >>= fun b => proceed d s (staged, b) := by
  rw [generate_eq, prepare_eq]
  unfold begin
  simp only [bind_assoc, pure_bind]
  rfl

/-! ## Records do not matter -/

theorem stageFile_steady (target : Path) (dryRun : Bool) (path content : Text) :
    (stageFile target dryRun path content).Steady := by
  unfold stageFile
  refine (Edit.Steady.ask _).bind fun b => ?_
  dsimp only
  split
  · exact .pure _
  · split
    · exact (ensureFoldersBack_steady _ _).bind fun _ => (writeFile_steady _ _).bind fun _ =>
        (Edit.Steady.log _ _).bind fun _ => .pure _
    · exact .pure _

theorem stageSkeleton_steady (target : Path) (tag : Text) (dryRun : Bool) : (stageSkeleton target tag dryRun).Steady :=
  (Edit.Steady.mapM (fun _ => stageFile_steady _ _ _ _) _).bind fun _ => .pure _

theorem bootstrapText_steady (s : Settings) (tag : Text) (staged : List Text) : (bootstrapText s tag staged).Steady := by
  refine (Edit.Steady.ask _).bind fun previous => ?_
  split
  · exact .pure _
  · exact .pure _

theorem registerVersion_steady (s : Settings) (tag : Text) (dryRun : Bool) (staged : List Text) :
    (registerVersion s tag dryRun staged).Steady := by
  refine (bootstrapText_steady s tag staged).bind fun found => ?_
  obtain ⟨previous, text⟩ := found
  cases text with
  | none => exact (Edit.Steady.log _ _).bind fun _ => .pure _
  | some text =>
    refine (Edit.Steady.ofLogged _).bind fun patched => ?_
    cases patched with
    | none => exact .pure _
    | some patched =>
      dsimp only
      split
      · exact (writeAtomically_steady _ _).bind fun _ => .pure _
      · exact .pure _

theorem begin_steady (s : Settings) (tag : Text) (dryRun : Bool) : (begin s tag dryRun).Steady :=
  (stageSkeleton_steady _ _ _).bind fun _ =>
    (registerVersion_steady _ _ _ _).bind fun _ => .pure _

/-- **A preparation does the same whatever was logged before.** -/
theorem prepare_steady (d : Spec.ApiDocument) (s : Settings) (dryRun : Bool) : (prepare d s dryRun).Steady := by
  rw [prepare_eq]
  exact (begin_steady s d.tag dryRun).bind fun _ => (describe_looks d s.target).steady.bind fun _ => .pure _

theorem writeFiles_steady (target : Path) (fs : List GeneratedFile) : (writeFiles target fs).Steady :=
  .mapM (fun _ => (writeAtomically_steady _ _).bind fun _ => (Edit.Steady.log _ _).bind fun _ => .pure _) _

theorem updateManifest_steady (p : Path) : (updateManifest p).Steady := by
  refine (Edit.Steady.ask _).bind fun existing => (Edit.Steady.ofOutcome _).bind fun merged => ?_
  split
  · exact .pure _
  · exact (writeAtomically_steady _ _).bind fun _ => (Edit.Steady.log _ _).bind fun _ => .pure _

theorem proceed_steady (d : Spec.ApiDocument) (s : Settings) (start : List Text × Option GeneratedFile) :
    (proceed d s start).Steady := by
  refine (describe_looks d s.target).steady.bind fun g => ?_
  dsimp only
  split
  · exact (Edit.Steady.log _ _).bind fun _ => .pure _
  · exact (writeFiles_steady _ _).bind fun _ => (updateManifest_steady _).bind fun _ => .pure _

/-! ## Which files the changes touch -/

variable {P : Location → Prop} {disk : Disk}

theorem stageFile_files {target : Path} {dryRun : Bool} {path content : Text}
    (h : ∀ m, P m → m ≠ disk.place (target.child path)) :
    (stageFile target dryRun path content).MovesFrom (SameFiles P) disk := by
  unfold stageFile
  refine Edit.Moves.from_bind (Edit.Moves.ask _) fun b => ?_
  dsimp only
  split
  · exact Edit.Moves.pure _ disk
  · split
    · refine .bind (fun l => (ensureFolders_adds _ disk l).sameFiles) fun _ disk₂ hfolders => ?_
      have hplace := (hfolders.moves (ensureFolders_adds _)).sameFiles (P := P).place
      refine .bind (writeFile_files fun m hm => hplace _ ▸ h m hm) fun _ disk₃ _ => ?_
      exact (Edit.Moves.log _ _).bind (fun _ => Edit.Moves.pure _) disk₃
    · exact Edit.Moves.pure _ disk

theorem stageSkeleton_files {target : Path} {tag : Text} {dryRun : Bool}
    (h : ∀ f ∈ skeletonFiles, ∀ m, P m → m ≠ disk.place (target.child (pathFor tag f.1))) :
    (stageSkeleton target tag dryRun).MovesFrom (SameFiles P) disk := by
  unfold stageSkeleton
  refine .bind (.mapM fun f hf disk₁ h₁ => ?_) fun _ disk₂ _ => Edit.Moves.pure _ disk₂
  exact stageFile_files fun m hm => h₁.place _ ▸ h f hf m hm

theorem bootstrapText_same (s : Settings) (tag : Text) (staged : List Text) : (bootstrapText s tag staged).Moves Eq := by
  refine (Edit.Moves.ask _).bind fun previous => ?_
  split
  · exact Edit.Moves.pure _
  · exact Edit.Moves.pure _

theorem registerVersion_files {s : Settings} {tag : Text} {dryRun : Bool} {staged : List Text}
    (h : ∀ m, P m → m ≠ disk.place s.bootstrapPath) :
    (registerVersion s tag dryRun staged).MovesFrom (SameFiles P) disk := by
  unfold registerVersion
  refine Edit.Moves.from_bind (bootstrapText_same s tag staged) fun found => ?_
  obtain ⟨previous, text⟩ := found
  cases text with
  | none => exact (Edit.Moves.log _ _).bind (fun _ => Edit.Moves.pure _) disk
  | some text =>
    refine Edit.Moves.from_bind (Edit.Moves.ofLogged _) fun patched => ?_
    cases patched with
    | none => exact Edit.Moves.pure _ disk
    | some patched =>
      dsimp only
      split
      · exact .bind (writeAtomically_files h) fun _ disk₁ _ => Edit.Moves.pure _ disk₁
      · exact Edit.Moves.pure _ disk

theorem begin_files {s : Settings} {tag : Text} {dryRun : Bool}
    (hskeleton : ∀ f ∈ skeletonFiles, ∀ m, P m → m ≠ disk.place (s.target.child (pathFor tag f.1)))
    (hbootstrap : ∀ m, P m → m ≠ disk.place s.bootstrapPath) :
    (begin s tag dryRun).MovesFrom (SameFiles P) disk := by
  refine .bind (stageSkeleton_files hskeleton) fun staged disk₁ hstaged => ?_
  have h₁ := hstaged.movesFrom (stageSkeleton_files hskeleton)
  refine .bind (registerVersion_files fun m hm => h₁.place _ ▸ hbootstrap m hm) fun _ disk₂ _ => ?_
  exact Edit.Moves.pure _ disk₂

theorem prepare_files {d : Spec.ApiDocument} {s : Settings} {dryRun : Bool}
    (hskeleton : ∀ f ∈ skeletonFiles, ∀ m, P m → m ≠ disk.place (s.target.child (pathFor d.tag f.1)))
    (hbootstrap : ∀ m, P m → m ≠ disk.place s.bootstrapPath) :
    (prepare d s dryRun).MovesFrom (SameFiles P) disk := by
  rw [prepare_eq]
  refine .bind (begin_files hskeleton hbootstrap) fun start disk₁ _ => ?_
  exact ((describe_looks d s.target).moves.bind fun _ => Edit.Moves.pure _) disk₁

end ApiRoutes.Project
