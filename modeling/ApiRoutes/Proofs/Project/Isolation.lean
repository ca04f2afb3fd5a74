import Mathlib.Data.List.Permutation
import ApiRoutes.Proofs.Project.Checking
import ApiRoutes.Proofs.Spec.Reduction
/-!
# Endpoints by themselves

What is generated from a document is what is generated from it reduced to each of its paths, taken together
(`generated_only`, `exists_generated_of_only`), as long as no two paths have one module.  So a run that keeps going
gives an endpoint the result that it has by itself, unless another endpoint ends the run by itself
(`generate_isolates`).
-/
namespace ApiRoutes.Project

open Disk Spec

variable {d : ApiDocument} {s : Settings} {target : Path} {tag path : Text} {disk disk' : Disk} {dryRun : Bool}

/-- No two paths of the document have one module. -/
def Apart (d : ApiDocument) : Prop := ∀ p ∈ d.paths, ∀ q ∈ d.paths, ∀ file,
  Route.endpointFile d.tag p.1 = .ok file → Route.endpointFile d.tag q.1 = .ok file → p.1 = q.1

/-! ## Checking -/

/-- Results whose files are apart from those of other endpoints, and from the base document. -/
structure FilesApart (base : GeneratedFile) (rs : List EndpointResult) : Prop where
  modules : ∀ r ∈ rs, ∀ r' ∈ rs, ∀ f f', r.file? = some f → r'.file? = some f' → f.path = f'.path →
    r.endpoint = r'.endpoint
  base : ∀ r ∈ rs, ∀ f, r.file? = some f → base.path ≠ f.path

section Check

variable {base : GeneratedFile} {rs rs' : List EndpointResult} (h : FilesApart base rs)

include h

/-- The text of a module is the one of its endpoint by itself. -/
theorem FilesApart.lastText? {r : EndpointResult} {f : GeneratedFile} (hr : r ∈ rs) (hf : r.file? = some f) :
    lastText? f.path ((rs.filter fun r' => r'.endpoint == r.endpoint).filterMap EndpointResult.file? ++ [base]) =
      Project.lastText? f.path (rs.filterMap EndpointResult.file? ++ [base]) := by
  rw [lastText?_append, lastText?_append, if_neg (h.base r hr f hf), if_neg (h.base r hr f hf)]
  unfold Project.lastText?
  rw [List.filter_filterMap, List.filter_filterMap, List.filterMap_filter]
  congr 2
  refine List.filterMap_congr fun r' hr' => ?_
  split
  · rfl
  · rename_i hne
    cases hf' : r'.file? with
    | none => rfl
    | some f' =>
      rw [Option.filter_some, if_neg fun hpath => hne (beq_iff_eq.2 (h.modules r' hr' r hr f' f hf' hf (beq_iff_eq.1 hpath)))]

theorem FilesApart.verdict {r : EndpointResult} (hr : r ∈ rs) :
    verdict ((rs.filter fun r' => r'.endpoint == r.endpoint).filterMap EndpointResult.file? ++ [base]) r =
      Project.verdict (rs.filterMap EndpointResult.file? ++ [base]) r := by
  unfold Project.verdict
  cases hf : r.file? with
  | none => rfl
  | some f => simp only [Option.bind_some, h.lastText? hr hf]

/-- **The check of all results checks those of each endpoint.** -/
theorem FilesApart.checkedFiles_only (hchecked : checkedFiles base rs = .ok rs') :
    checkedFiles base (rs.filter fun r => r.endpoint == path) = .ok (rs'.filter fun r => r.endpoint == path) := by
  obtain ⟨hlooked, hbase, rfl⟩ := checkedFiles_eq_ok.1 hchecked
  refine checkedFiles_eq_ok.2 ⟨fun file t ht => ?_, hbase, ?_⟩
  · obtain ⟨f, hf, rfl, -⟩ := mem_of_lastText ht
    obtain hmem | hmem := List.mem_append.1 hf
    · obtain ⟨r, hfiltered, hfile⟩ := List.mem_filterMap.1 hmem
      obtain ⟨hr, hendpoint⟩ := List.mem_filter.1 hfiltered
      obtain rfl := beq_iff_eq.1 hendpoint
      exact hlooked _ t ((h.lastText? hr hfile).symm.trans ht)
    · rw [List.mem_singleton.1 hmem, lastText?_append, if_pos rfl] at ht
      obtain rfl := Option.some.inj ht
      rw [List.mem_singleton.1 hmem]
      exact ⟨none, hbase⟩
  · rw [List.filter_map]
    simp only [Function.comp_def, endpoint_verdict]
    refine List.map_congr_left fun r hfiltered => ?_
    obtain ⟨hr, hendpoint⟩ := List.mem_filter.1 hfiltered
    obtain rfl := beq_iff_eq.1 hendpoint
    exact (h.verdict hr).symm

/-- **All results can be checked when those of each endpoint can.** -/
theorem FilesApart.exists_checkedFiles_of_only (hrs : rs ≠ [])
    (hchecked : ∀ r ∈ rs, ∃ rs', checkedFiles base (rs.filter fun r' => r'.endpoint == r.endpoint) = .ok rs') :
    ∃ rs', checkedFiles base rs = .ok rs' := by
  simp only [checkedFiles_eq_ok] at hchecked ⊢
  have hbase : reasonOf base.path base.content = .ok none := by
    obtain ⟨r, hr⟩ := List.exists_mem_of_ne_nil _ hrs
    obtain ⟨-, -, hbase, -⟩ := hchecked r hr
    exact hbase
  refine ⟨_, fun file t ht => ?_, hbase, rfl⟩
  obtain ⟨f, hf, rfl, -⟩ := mem_of_lastText ht
  obtain hmem | hmem := List.mem_append.1 hf
  · obtain ⟨r, hr, hfile⟩ := List.mem_filterMap.1 hmem
    obtain ⟨-, hlooked, -⟩ := hchecked r hr
    exact hlooked _ t ((h.lastText? hr hfile).trans ht)
  · rw [List.mem_singleton.1 hmem, lastText?_append, if_pos rfl] at ht
    obtain rfl := Option.some.inj ht
    rw [List.mem_singleton.1 hmem]
    exact ⟨none, hbase⟩

end Check

/-! ## Generating -/

theorem filesApart_of_merged {es : List Endpoint} {rs : List EndpointResult} {base : GeneratedFile} (hapart : Apart d)
    (hes : d.endpoints.2 = .ok es) (hrs : (es.mapM fun e => mergedEndpoint target d.tag e disk) = .ok rs)
    (hbase : base.path = baseDocumentFile d.tag) : FilesApart base rs := by
  have hmade : ∀ r ∈ rs, r.endpoint ∈ d.paths.map (·.1) ∧
      ∀ f, r.file? = some f → Route.endpointFile d.tag r.endpoint = .ok f.path := fun r hr => by
    obtain ⟨e, he, hmerged⟩ := exists_of_forall₂ (mapM_eq_ok.1 hrs) hr
    obtain ⟨hendpoint, hfile⟩ := mergedEndpoint_ok hmerged
    rw [hendpoint, ← paths_endpoints hes]
    exact ⟨List.mem_map_of_mem he, fun f hf => (hfile f (file?_eq_some.1 hf)).1.file⟩
  constructor
  · intro r hr r' hr' f f' hf hf' hpath
    obtain ⟨hmem, hfile⟩ := hmade r hr
    obtain ⟨hmem', hfile'⟩ := hmade r' hr'
    obtain ⟨p, hp, hpe⟩ := List.mem_map.1 hmem
    obtain ⟨q, hq, hqe⟩ := List.mem_map.1 hmem'
    have hsame := hfile' f' hf'
    rw [← hpath, ← hqe] at hsame
    have hown := hfile f hf
    rw [← hpe] at hown
    exact hpe.symm.trans ((hapart p hp q hq f.path hown hsame).trans hqe)
  · intro r hr f hf heq
    refine @place_endpointFile_ne disk target _ _ _ ((hmade r hr).2 f hf) ?_
    rw [← heq, hbase]

theorem renderBaseDocument_eq_ok {content : Text} :
    renderBaseDocument d = .ok content ↔ ∃ t, d.baseTree = .ok t ∧ content = Yaml.render t := by
  unfold renderBaseDocument
  cases d.baseTree with
  | error x => simp [Except.map]
  | ok t => simp [Except.map, eq_comm]

theorem baseFile_only {base : GeneratedFile} (h : baseFile d target d.tag disk = .ok base) (path : Text) :
    baseFile (d.only path) target d.tag disk = .ok base := by
  obtain ⟨hholds, hcontent, hprevious, hpath⟩ := baseFile_eq_ok.1 h
  obtain ⟨t, ht, hrender⟩ := renderBaseDocument_eq_ok.1 hcontent
  exact baseFile_eq_ok.2 ⟨hholds, renderBaseDocument_eq_ok.2 ⟨t, baseTree_only ht, hrender⟩, hprevious, hpath⟩

theorem exists_baseFile_of_only (hpaths : d.paths ≠ [])
    (h : ∀ p ∈ d.paths, ∃ base, baseFile (d.only p.1) target d.tag disk = .ok base) :
    ∃ base, baseFile d target d.tag disk = .ok base := by
  obtain ⟨t, ht⟩ : ∃ t, d.baseTree = .ok t := exists_baseTree_of_only hpaths fun p hp => by
    obtain ⟨base, hbase⟩ := h p hp
    obtain ⟨-, hcontent, -, -⟩ := baseFile_eq_ok.1 hbase
    obtain ⟨t, ht, -⟩ := renderBaseDocument_eq_ok.1 hcontent
    exact ⟨t, ht⟩
  obtain ⟨p, hp⟩ := List.exists_mem_of_ne_nil _ hpaths
  obtain ⟨base, hbase⟩ := h p hp
  obtain ⟨hholds, -, hprevious, -⟩ := baseFile_eq_ok.1 hbase
  exact ⟨⟨_, _, base.previous⟩, baseFile_eq_ok.2 ⟨hholds, renderBaseDocument_eq_ok.2 ⟨t, ht, rfl⟩, hprevious, rfl⟩⟩

/-- The results of a reduced document are those of its path. -/
theorem mergedEndpoints_only {es : List Endpoint} {rs : List EndpointResult} (path : Text)
    (hrs : (es.mapM fun e => mergedEndpoint target tag e disk) = .ok rs) :
    ((es.filter fun e => e.path == path).mapM fun e => mergedEndpoint target tag e disk) =
      .ok (rs.filter fun r => r.endpoint == path) :=
  mapM_ok_filter (fun e r hr => by rw [(mergedEndpoint_ok hr).1]) hrs

/-- **What is generated for the endpoints of a path is what is generated for them alone.** -/
theorem generated_only (hapart : Apart d) {g : GeneratedFile × List EndpointResult} (h : generated d target disk = .ok g)
    (path : Text) :
    generated (d.only path) target disk = .ok (g.1, g.2.filter fun r => r.endpoint == path) := by
  obtain ⟨es, rs, hbase, hes, hrs, hchecked⟩ := generated_eq_ok.1 h
  obtain ⟨-, -, -, hpath⟩ := baseFile_eq_ok.1 hbase
  exact generated_eq_ok.2 ⟨_, _, baseFile_only hbase path, endpoints_only hes, mergedEndpoints_only path hrs,
    (filesApart_of_merged hapart hes hrs hpath).checkedFiles_only hchecked⟩

/-- **All is generated when it is for each path alone.** -/
theorem exists_generated_of_only (hapart : Apart d) (hpaths : d.paths ≠ [])
    (h : ∀ p ∈ d.paths, ∃ g, generated (d.only p.1) target disk = .ok g) : ∃ g, generated d target disk = .ok g := by
  simp only [generated_eq_ok] at h
  obtain ⟨base, hbase⟩ := exists_baseFile_of_only hpaths fun p hp => by
    obtain ⟨g, -, -, hbase, -⟩ := h p hp
    exact ⟨g.1, hbase⟩
  obtain ⟨es, hes⟩ := exists_endpoints_of_only fun p hp => by
    obtain ⟨-, es, -, -, hes, -⟩ := h p hp
    exact ⟨es, hes⟩
  have hpath : ∀ e ∈ es, ∃ p ∈ d.paths, p.1 = e.path := fun e he => by
    have hmem := List.mem_map_of_mem (f := (·.path)) he
    rw [paths_endpoints hes] at hmem
    exact List.mem_map.1 hmem
  obtain ⟨rs, hrs⟩ : ∃ rs, (es.mapM fun e => mergedEndpoint target d.tag e disk) = .ok rs := exists_mapM_ok.2 fun e he => by
    obtain ⟨p, hp, hpe⟩ := hpath e he
    obtain ⟨-, es', rs', -, hes', hrs', -⟩ := h p hp
    obtain rfl := Except.ok.inj (hes'.symm.trans (endpoints_only hes))
    exact exists_mapM_ok.1 ⟨rs', hrs'⟩ e (List.mem_filter.2 ⟨he, beq_iff_eq.2 hpe.symm⟩)
  obtain ⟨rs', hchecked⟩ : ∃ rs', checkedFiles base rs = .ok rs' := by
    refine (filesApart_of_merged hapart hes hrs (baseFile_eq_ok.1 hbase).2.2.2).exists_checkedFiles_of_only ?_ fun r hr => ?_
    · rintro rfl
      rw [List.forall₂_nil_right_iff.1 (mapM_eq_ok.1 hrs)] at hes
      exact hpaths (List.map_eq_nil_iff.1 (paths_endpoints hes).symm)
    · obtain ⟨e, he, hmerged⟩ := exists_of_forall₂ (mapM_eq_ok.1 hrs) hr
      obtain ⟨p, hp, hpe⟩ := hpath e he
      obtain ⟨g, es', rs', hbase', hes', hrs', hchecked⟩ := h p hp
      obtain rfl := Except.ok.inj (hes'.symm.trans (endpoints_only hes))
      obtain rfl := Except.ok.inj (hrs'.symm.trans (mergedEndpoints_only p.1 hrs))
      rw [← Except.ok.inj (hbase'.symm.trans (baseFile_only hbase p.1)), (mergedEndpoint_ok hmerged).1, ← hpe]
      exact ⟨_, hchecked⟩
  exact ⟨(base, rs'), generated_eq_ok.2 ⟨es, rs, hbase, hes, hrs, hchecked⟩⟩

/-! ## The whole -/

theorem prepare_takes_iff {r : Report} : (prepare d s dryRun).Takes disk r disk' ↔
    ∃ start g, (begin s d.tag dryRun).Takes disk start disk' ∧ generated d s.target disk' = .ok g ∧
      r = reportOf d.tag dryRun start.1 start.2 g := by
  constructor
  · exact prepare_takes_steps
  · rintro ⟨start, g, hstart, hg, rfl⟩
    exact (prepare_gives ((begin_steady s d.tag dryRun).gives hstart) hg).takes

/-- A preparation for a reduced document does the same, and reports the results of its path. -/
theorem prepare_only (hapart : Apart d) {r : Report} (h : (prepare d s dryRun).Takes disk r disk') (path : Text) :
    (prepare (d.only path) s dryRun).Takes disk { r with endpoints := r.endpoints.filter fun e => e.endpoint == path }
      disk' := by
  obtain ⟨start, g, hstart, hg, rfl⟩ := prepare_takes_iff.1 h
  exact prepare_takes_iff.2 ⟨start, _, hstart, generated_only hapart hg path, rfl⟩

theorem exists_prepare_of_only (hapart : Apart d) (hpaths : d.paths ≠ [])
    (h : ∀ p ∈ d.paths, ∃ r disk', (prepare (d.only p.1) s dryRun).Takes disk r disk') :
    ∃ r disk', (prepare d s dryRun).Takes disk r disk' := by
  obtain ⟨p, hp⟩ := List.exists_mem_of_ne_nil _ hpaths
  obtain ⟨r, disk', hr⟩ := h p hp
  obtain ⟨start, -, hstart, -, -⟩ := prepare_takes_iff.1 hr
  obtain ⟨g, hg⟩ : ∃ g, generated d s.target disk' = .ok g := exists_generated_of_only hapart hpaths fun q hq => by
    obtain ⟨r', disk'', hr'⟩ := h q hq
    obtain ⟨start', g', hstart', hg', -⟩ := prepare_takes_iff.1 hr'
    rw [((begin_steady s d.tag dryRun).takes_unique hstart hstart').2]
    exact ⟨g', hg'⟩
  exact ⟨_, disk', prepare_takes_iff.2 ⟨start, g, hstart, hg, rfl⟩⟩

theorem generate_keepGoing (hpolicy : s.policy = .keepGoing) : generate d s dryRun = (do
    let r ← prepare d s dryRun
    if dryRun then return r else conclude s r) := by
  unfold generate conclude
  cases dryRun <;> simp [hpolicy]

/-- A run reports the results that were prepared. -/
theorem generate_endpoints {r : Report} (hpolicy : s.policy = .keepGoing) (h : (generate d s dryRun).Takes disk r disk') :
    ∃ r₀ disk₁, (prepare d s dryRun).Takes disk r₀ disk₁ ∧ r.endpoints = r₀.endpoints := by
  rw [generate_keepGoing hpolicy] at h
  obtain ⟨r₀, disk₁, hr₀, h₁⟩ := Edit.Takes.of_bind h
  refine ⟨r₀, disk₁, hr₀, ?_⟩
  split at h₁
  · obtain ⟨rfl, -⟩ := h₁.eq_of_pure
    rfl
  · unfold conclude at h₁
    obtain ⟨paths, disk₂, -, h₂⟩ := Edit.Takes.of_bind h₁
    obtain ⟨b, disk₃, -, h₃⟩ := Edit.Takes.of_bind h₂
    obtain ⟨rfl, -⟩ := h₃.eq_of_pure
    rfl

/-- **An endpoint gets the result that it has by itself**, in a run that keeps going over a document without two
paths for one module: unless the run ends because another endpoint ends its own one, or because something that was
prepared cannot be written. -/
theorem generate_isolates {alone : Report} {logs logs' : List Record} {disk₂ : Disk} {result : Outcome Report}
    (hpolicy : s.policy = .keepGoing) (hapart : Apart d) (hpath : path ∈ d.paths.map (·.1))
    (halone : (generate (d.only path) s dryRun).perform disk = (disk', .ok alone, logs))
    (hwhole : (generate d s dryRun).perform disk = (disk₂, result, logs')) :
    (∃ p ∈ d.paths, p.1 ≠ path ∧ ∃ x y, ((prepare (d.only p.1) s dryRun).perform disk).2.1 = .error x ∧ result = .error y) ∨
    (∀ p ∈ d.paths, ∃ r, ((prepare (d.only p.1) s dryRun).perform disk).2.1 = .ok r) ∧
      ∃ r disk₁, (prepare d s dryRun).Takes disk r disk₁ ∧
        r.endpoints.filter (fun e => e.endpoint == path) = alone.endpoints ∧
        ((∃ r', result = .ok r' ∧ r'.endpoints = r.endpoints) ∨
          dryRun = false ∧ ∃ x, result = .error x ∧ (conclude s r).Fails disk₁ x disk₂) := by
  have hreports : ∀ p, (∃ r, ((prepare (d.only p) s dryRun).perform disk).2.1 = .ok r) ↔
      ∃ r disk', (prepare (d.only p) s dryRun).Takes disk r disk' := fun p => by
    simp only [(prepare_steady (d.only p) s dryRun).takes_iff]
    exact exists_congr fun r => ⟨fun h => ⟨_, rfl, h⟩, fun h => h.choose_spec.2⟩
  obtain ⟨alone₀, disk₀, hprepared, hsame⟩ := generate_endpoints hpolicy (Edit.Takes.of_perform halone)
  by_cases hall : ∀ p ∈ d.paths, ∃ r, ((prepare (d.only p.1) s dryRun).perform disk).2.1 = .ok r
  · right
    obtain ⟨p, hp, -⟩ := List.mem_map.1 hpath
    obtain ⟨r, disk₁, hr⟩ := exists_prepare_of_only hapart (List.ne_nil_of_mem hp) fun q hq => (hreports q.1).1 (hall q hq)
    obtain ⟨rfl, rfl⟩ := (prepare_steady (d.only path) s dryRun).takes_unique (prepare_only hapart hr path) hprepared
    refine ⟨hall, r, disk₁, hr, hsame.symm, ?_⟩
    rw [generate_keepGoing hpolicy] at hwhole
    cases result with
    | ok r' =>
      refine .inl ⟨r', rfl, ?_⟩
      rw [← generate_keepGoing hpolicy] at hwhole
      obtain ⟨r₀, disk₃, hr₀, hends⟩ := generate_endpoints hpolicy (Edit.Takes.of_perform hwhole)
      rw [hends, ((prepare_steady d s dryRun).takes_unique hr₀ hr).1]
    | error x =>
      right
      obtain hfails | ⟨r₀, disk₃, hr₀, hrest⟩ := Edit.Fails.of_bind (Edit.Fails.of_perform hwhole)
      · exact absurd hfails ((prepare_steady d s dryRun).not_fails hr)
      · obtain ⟨rfl, rfl⟩ := (prepare_steady d s dryRun).takes_unique hr₀ hr
        split at hrest
        · exact absurd hrest Edit.Fails.not_pure
        · exact ⟨by simpa using ‹¬ dryRun = true›, x, rfl, hrest⟩
  · left
    simp only [not_forall, not_exists] at hall
    obtain ⟨p, hp, hnone⟩ := hall
    have hbreaks : ∀ r disk', ¬ (prepare (d.only p.1) s dryRun).Takes disk r disk' := fun r disk' hr =>
      hnone r ((prepare_steady _ s dryRun).takes_iff.1 hr).2
    refine ⟨p, hp, fun heq => hbreaks _ _ (heq ▸ hprepared), ?_⟩
    cases hx : ((prepare (d.only p.1) s dryRun).perform disk).2.1 with
    | ok r => exact absurd hx (hnone r)
    | error x =>
      cases result with
      | error y => exact ⟨x, y, rfl, rfl⟩
      | ok r =>
        obtain ⟨r₀, disk₁, hr₀, -⟩ := generate_endpoints hpolicy (Edit.Takes.of_perform hwhole)
        exact absurd (prepare_only hapart hr₀ p.1) (hbreaks _ _)

/-- A document with two paths. -/
def pair : ApiDocument where
  paths := [("/a", none), ("/b", none)]
  source := [(.leaf none "paths", .map none [(.leaf none "/a", .leaf none .null), (.leaf none "/b", .leaf none .null)])]

theorem ofTree_pair : (ApiDocument.ofTree (.map none pair.source) "api.yml").2 = .ok pair :=
  ofTree_eq_ok.2 ⟨{ paths := pair.paths }, by cbv, rfl, _, rfl⟩

theorem apart_pair : Apart pair := by
  have hfiles : ∀ p ∈ pair.paths, ∀ q ∈ pair.paths,
      (Route.endpointFile pair.tag p.1).toOption = (Route.endpointFile pair.tag q.1).toOption → p.1 = q.1 := by decide
  intro p hp q hq file hpfile hqfile
  exact hfiles p hp q hq (by rw [hpfile, hqfile])

/-- Settings for a run that keeps going and registers nothing. -/
def unregistered : Settings where
  bootstrapFile := "main.js"
  policy := .keepGoing

theorem generate_isolates_sample : ∃ disk alone logs disk₂ result logs',
    (generate (pair.only "/a") unregistered false).perform stagedDisk = (disk, .ok alone, logs) ∧
    (generate pair unregistered false).perform stagedDisk = (disk₂, result, logs') ∧
    ((∃ p ∈ pair.paths, p.1 ≠ Text.ofString "/a" ∧ ∃ x y,
        ((prepare (pair.only p.1) unregistered false).perform stagedDisk).2.1 = .error x ∧ result = .error y) ∨
      (∀ p ∈ pair.paths, ∃ r, ((prepare (pair.only p.1) unregistered false).perform stagedDisk).2.1 = .ok r) ∧
      ∃ r disk₁, (prepare pair unregistered false).Takes stagedDisk r disk₁ ∧
        r.endpoints.filter (fun e => e.endpoint == Text.ofString "/a") = alone.endpoints ∧
        ((∃ r', result = .ok r' ∧ r'.endpoints = r.endpoints) ∨
          false = false ∧ ∃ x, result = .error x ∧ (conclude unregistered r).Fails disk₁ x disk₂)) := by
  generalize hp : (generate (pair.only "/a") unregistered false).perform stagedDisk = run
  generalize hq : (generate pair unregistered false).perform stagedDisk = whole
  have hrun : run.2.1.toOption.isSome = true := by
    rw [← hp]
    decide +kernel
  obtain ⟨disk, r | alone, logs⟩ := run
  · cases hrun
  · obtain ⟨disk₂, result, logs'⟩ := whole
    exact ⟨disk, alone, logs, disk₂, result, logs', rfl, rfl, generate_isolates rfl apart_pair (by decide) hp hq⟩

/-- A disk where the module of `/b` is not in UTF-8. -/
def garbledDisk : Disk where
  items := (["src", "api", "v1", "paths"], .folder) :: (["src", "api", "v1", "paths", "b.js"], .file [0xE9]) ::
    stagedDisk.items

/-- The module of `/b` ends the run also for `/a`. -/
theorem generate_not_isolated : ¬ ∀ (t : Yaml.Tree) (origin : Text) (d : ApiDocument) (s : Settings) (disk disk' : Disk)
    (alone : Report) (logs : List Record) (path : Text), (ApiDocument.ofTree t origin).2 = .ok d →
      s.policy = .keepGoing → path ∈ d.paths.map (·.1) →
      (generate (d.only path) s false).perform disk = (disk', .ok alone, logs) → alone.isOk = true →
      ∃ r, ((generate d s false).perform disk).2.1 = .ok r ∧
        r.endpoints.filter (fun e => e.endpoint == path) = alone.endpoints := by
  intro hall
  have hisolated := hall (.map none pair.source) "api.yml" pair unregistered garbledDisk
  generalize hp : (generate (pair.only "/a") unregistered false).perform
    garbledDisk = run at hisolated
  have hrun : (run.2.1.toOption.any fun r => r.isOk) = true := by
    rw [← hp]
    decide +kernel
  have hwhole : (((generate pair unregistered false).perform
      garbledDisk).2.1.toOption.isNone) = true := by
    decide +kernel
  obtain ⟨disk, r | alone, logs⟩ := run
  · cases hrun
  · obtain ⟨r, hr, -⟩ := hisolated disk alone logs "/a" ofTree_pair rfl (by decide) hp hrun
    rw [hr] at hwhole
    cases hwhole

end ApiRoutes.Project
