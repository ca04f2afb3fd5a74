import ApiRoutes.Proofs.Outcomes
import ApiRoutes.Proofs.Disk.Files
import ApiRoutes.Proofs.Project.Places
/-!
# What a generation leaves on the disk

A generation reads all that it changes before it writes any of it, and then writes one file after the
other.  So a module that was reported is found on the disk unless another one was written to its
place after it (`generate_keeps_modules`).
-/
namespace ApiRoutes.Project

open Disk

/-! ## The places of generated files -/

theorem place_append_name (d : Disk) (root : Text) (names : List Text) {name : Text} (h : name ≠ Path.up) :
    ∃ l, d.place ⟨root, names ++ [name]⟩ = l ++ [name] := by
  refine ⟨names.foldl further (if root.isEmpty then d.here else []), ?_⟩
  unfold place
  rw [List.foldl_append, List.foldl_cons, List.foldl_nil]
  exact if_neg (by simpa using h)

/-- The place of a path that a text spells ends as the text does. -/
theorem place_child {d : Disk} (target : Path) {t : Text} (h : ∀ c ∈ t, (c == .scalar '/') = false)
    (hlong : 2 < t.length) (s : Text) : ∃ l x, d.place (target.child (s ++ t)) = l ++ [x ++ t] := by
  obtain ⟨init, x, -, hpieces⟩ := Text.pieces_append h s
  have hlength : 2 < (x ++ t).length := by
    rw [List.length_append]
    omega
  have hne : ∀ u : Text, u.length ≤ 2 → x ++ t ≠ u := fun u hu he => by
    rw [he] at hlength
    omega
  have hleads : Path.leads (x ++ t) = true := by
    unfold Path.leads
    rw [Bool.and_eq_true, Bool.not_eq_true', List.isEmpty_eq_false_iff, bne_iff_ne]
    exact ⟨hne [] (by decide), hne _ (by decide)⟩
  have hup : x ++ t ≠ Path.up := hne _ (by decide)
  have hnames : (Path.ofText (s ++ t)).names = init.filter Path.leads ++ [x ++ t] := by
    unfold Path.ofText Text.splitAt
    rw [hpieces, List.filter_append, List.filter_cons_of_pos hleads, List.filter_nil]
  unfold Path.child Path.join
  rw [hnames]
  split
  · rw [← List.append_assoc]
    obtain ⟨l, hl⟩ := place_append_name d target.root (target.names ++ init.filter Path.leads) hup
    exact ⟨l, x, hl⟩
  · have hsame : Path.ofText (s ++ t) = ⟨(Path.ofText (s ++ t)).root, init.filter Path.leads ++ [x ++ t]⟩ := by
      rw [← hnames]
    rw [hsame]
    obtain ⟨l, hl⟩ := place_append_name d (Path.ofText (s ++ t)).root (init.filter Path.leads) hup
    exact ⟨l, x, hl⟩

theorem endsInJs_of_endpointFile {tag path file : Text} (h : Route.endpointFile tag path = .ok file) :
    ∃ s : Text, file = s ++ Text.ofString ".js" := by
  unfold Route.endpointFile at h
  simp only at h
  split_ifs at h
  cases h
  exact ⟨_, rfl⟩

/-- **No module has the place of the base document.** -/
theorem place_endpointFile_ne {d : Disk} {target : Path} {tag path file : Text}
    (h : Route.endpointFile tag path = .ok file) :
    d.place (target.child file) ≠ d.place (target.child (baseDocumentFile tag)) := by
  obtain ⟨s, rfl⟩ := endsInJs_of_endpointFile h
  obtain ⟨l, x, hl⟩ := place_child (d := d) target (t := Text.ofString ".js") (by decide) (by decide) s
  obtain ⟨m, y, hm⟩ := place_child (d := d) target (t := Text.ofString "base-api-doc.yml") (by decide) (by decide)
    (Text.ofString "src/api/" ++ tag ++ Text.ofString "/")
  have hbase : baseDocumentFile tag = Text.ofString "src/api/" ++ tag ++ Text.ofString "/" ++ Text.ofString "base-api-doc.yml" := by
    unfold baseDocumentFile
    simp [Text.ofString]
  rw [hl, hbase, hm]
  intro heq
  have hnames := (List.append_inj' heq rfl).2
  have hlast := congrArg List.getLast? (List.cons.inj hnames).1
  simp [Text.ofString] at hlast

/-! ## Reading before writing -/

theorem failedEndpoint_same (e : Spec.Endpoint) (path : Option Text) (f : Failure) :
    (failedEndpoint e path f).Moves Eq := by
  unfold failedEndpoint
  split
  · exact Edit.Moves.throw _
  · exact (Edit.Moves.log _ _).bind fun _ => Edit.Moves.pure _

theorem failedEndpoint_takes {e : Spec.Endpoint} {path : Option Text} {f : Failure} {d d' : Disk}
    {r : EndpointResult} (h : (failedEndpoint e path f).Takes d r d') : r = ⟨e.path, path, .error f⟩ := by
  unfold failedEndpoint at h
  split at h
  · rw [Edit.throw_bind] at h
    exact absurd h Edit.Takes.not_throw
  · obtain ⟨l, l', h⟩ := Edit.Takes.of_log_bind h
    cases h
    rfl

theorem mergeIntoFile_same (target : Path) (path : Text) (e : Spec.Endpoint) :
    (mergeIntoFile target path e).Moves Eq :=
  (Edit.Moves.ask _).bind fun _ => (Edit.Moves.ofLogged _).bind fun _ => Edit.Moves.pure _

theorem mergeIntoFile_takes {target : Path} {path : Text} {e : Spec.Endpoint} {d d' : Disk} {f : GeneratedFile}
    (h : (mergeIntoFile target path e).Takes d f d') :
    f.path = path ∧ d.readText? (target.child path) = .ok f.previous := by
  unfold mergeIntoFile at h
  obtain ⟨previous, hprevious, h⟩ := Edit.Takes.of_ask_bind h
  obtain ⟨content, d₁, hcontent, l, l', h⟩ := Edit.Takes.of_bind h
  cases h
  exact ⟨rfl, hprevious⟩

theorem mergeEndpointFile_same (target : Path) (tag : Text) (e : Spec.Endpoint) :
    (mergeEndpointFile target tag e).Moves Eq := by
  unfold mergeEndpointFile
  split
  · exact failedEndpoint_same e none _
  · exact ((mergeIntoFile_same target _ e).bind fun _ => Edit.Moves.pure _).tryCatch fun f => failedEndpoint_same e _ f

/-- A module that was made of an endpoint: where it is, and what there was. -/
structure MadeOf (d : Disk) (target : Path) (tag : Text) (r : EndpointResult) (f : GeneratedFile) : Prop where
  path : r.path = some f.path
  file : ∃ p, Route.endpointFile tag p = .ok f.path
  previous : d.readText? (target.child f.path) = .ok f.previous

theorem mergeEndpointFile_takes {target : Path} {tag : Text} {e : Spec.Endpoint} {d d' : Disk} {r : EndpointResult}
    (h : (mergeEndpointFile target tag e).Takes d r d') :
    r.endpoint = e.path ∧ ∀ f, r.outcome = .ok f → MadeOf d target tag r f := by
  unfold mergeEndpointFile at h
  cases hfile : Route.endpointFile tag e.path with
  | error f =>
    rw [hfile] at h
    cases failedEndpoint_takes h
    exact ⟨rfl, fun f hf => nomatch hf⟩
  | ok path =>
    rw [hfile] at h
    obtain h | ⟨f, l, h⟩ := Edit.Takes.of_tryCatch h
    · obtain ⟨f, d₁, hf, l, l', h⟩ := Edit.Takes.of_bind h
      obtain ⟨rfl, hprevious⟩ := mergeIntoFile_takes hf
      cases h
      refine ⟨rfl, fun f' hf' => ?_⟩
      cases hf'
      exact ⟨rfl, ⟨_, hfile⟩, hprevious⟩
    · cases failedEndpoint_takes h
      exact ⟨rfl, fun f hf => nomatch hf⟩

theorem checkedResult_same (faults : List (Text × Text)) (r : EndpointResult) : (checkedResult faults r).Moves Eq := by
  unfold checkedResult
  split
  · exact Edit.Moves.pure _
  · split
    · exact Edit.Moves.pure _
    · exact (Edit.Moves.log _ _).bind fun _ => Edit.Moves.pure _

/-- A check only makes failures of results. -/
theorem checkedResult_takes {faults : List (Text × Text)} {r r' : EndpointResult} {d d' : Disk}
    (h : (checkedResult faults r).Takes d r' d') : r'.endpoint = r.endpoint ∧ ∀ f, r'.outcome = .ok f → r' = r := by
  unfold checkedResult at h
  split at h
  · obtain ⟨l, l', h⟩ := h
    cases h
    exact ⟨rfl, fun _ _ => rfl⟩
  · split at h
    · obtain ⟨l, l', h⟩ := h
      cases h
      exact ⟨rfl, fun _ _ => rfl⟩
    · obtain ⟨l, l', h⟩ := Edit.Takes.of_log_bind h
      cases h
      exact ⟨rfl, fun f hf => nomatch hf⟩

theorem checkFiles_takes {b : GeneratedFile} {rs rs' : List EndpointResult} {d d' : Disk}
    (h : (checkFiles b rs).Takes d rs' d') :
    d' = d ∧ List.Forall₂ (fun r r' : EndpointResult => r'.endpoint = r.endpoint ∧ ∀ f, r'.outcome = .ok f → r' = r) rs rs' := by
  unfold checkFiles at h
  obtain ⟨faults, -, hcheck⟩ := Edit.Takes.of_same_bind (Edit.Moves.ofOutcome _) h
  split at hcheck
  · exact absurd hcheck Edit.Takes.not_throw
  · obtain ⟨rfl, hall⟩ := Edit.Takes.of_mapM (checkedResult_same faults) hcheck
    exact ⟨rfl, hall.imp fun r r' hr => checkedResult_takes hr⟩

theorem baseDocument_same (d : Spec.ApiDocument) (target : Path) (tag : Text) : (baseDocument d target tag).Moves Eq := by
  unfold baseDocument
  refine (Edit.Moves.ask _).bind fun b => ?_
  have hrest : ∀ u : PUnit, (do
      let content ← Edit.ofOutcome (renderBaseDocument d)
      let previous ← Edit.ask (·.readText? (target.child (baseDocumentFile tag)))
      return ⟨baseDocumentFile tag, content, previous⟩ : Edit Disk GeneratedFile).Moves Eq := fun _ =>
    (Edit.Moves.ofOutcome _).bind fun _ => (Edit.Moves.ask _).bind fun _ => Edit.Moves.pure _
  cases b
  · exact hrest ⟨⟩
  · exact (Edit.Moves.log _ _).bind hrest

theorem baseDocument_takes {d : Spec.ApiDocument} {target : Path} {tag : Text} {disk disk' : Disk} {f : GeneratedFile}
    (h : (baseDocument d target tag).Takes disk f disk') :
    f.path = baseDocumentFile tag ∧ disk.readText? (target.child f.path) = .ok f.previous := by
  unfold baseDocument at h
  obtain ⟨b, hb, h⟩ := Edit.Takes.of_ask_bind h
  have hrest : (do
      let content ← Edit.ofOutcome (renderBaseDocument d)
      let previous ← Edit.ask (·.readText? (target.child (baseDocumentFile tag)))
      return ⟨baseDocumentFile tag, content, previous⟩ : Edit Disk GeneratedFile).Takes disk f disk' := by
    cases b
    · exact h
    · exact Edit.Takes.of_log_bind h
  obtain ⟨content, -, hread⟩ := Edit.Takes.of_same_bind (Edit.Moves.ofOutcome _) hrest
  obtain ⟨previous, hprevious, l, l', hend⟩ := Edit.Takes.of_ask_bind hread
  cases hend
  exact ⟨rfl, hprevious⟩

theorem map_eq_of_forall₂ {α β γ : Type} {f : α → γ} {g : β → γ} {xs : List α} {ys : List β}
    (h : List.Forall₂ (fun x y => g y = f x) xs ys) : ys.map g = xs.map f := by
  induction h with
  | nil => rfl
  | cons h _ ih => simp [h, ih]

/-- What was prepared, on the disk that it is to be written to. -/
structure Prepared (d : Spec.ApiDocument) (target : Path) (disk : Disk) (r : Report) : Prop where
  basePath : r.baseDocument.path = baseDocumentFile r.tag
  basePrevious : disk.readText? (target.child r.baseDocument.path) = .ok r.baseDocument.previous
  endpoints : ∃ es, d.endpoints.2 = .ok es ∧ r.endpoints.map (·.endpoint) = es.map (·.path)
  modules : ∀ e ∈ r.endpoints, ∀ f, e.outcome = .ok f → MadeOf disk target r.tag e f

theorem prepare_takes {d : Spec.ApiDocument} {s : Settings} {dryRun : Bool} {disk disk' : Disk} {r : Report}
    (h : (prepare d s dryRun).Takes disk r disk') : Prepared d s.target disk' r := by
  unfold prepare at h
  obtain ⟨staged, d₁, -, h₁⟩ := Edit.Takes.of_bind h
  obtain ⟨bootstrap, d₂, -, h₂⟩ := Edit.Takes.of_bind h₁
  obtain ⟨base, hbase, h₃⟩ := Edit.Takes.of_same_bind (baseDocument_same _ _ _) h₂
  obtain ⟨es, hes, h₄⟩ := Edit.Takes.of_same_bind (Edit.Moves.ofLogged _) h₃
  obtain ⟨rs, hrs, h₅⟩ := Edit.Takes.of_same_bind (Edit.Moves.mapM (mergeEndpointFile_same _ _) _) h₄
  obtain ⟨rs', d₆, hcheck, l, l', hend⟩ := Edit.Takes.of_bind h₅
  obtain ⟨rfl, hchecked⟩ := checkFiles_takes hcheck
  obtain ⟨-, hmerged⟩ := Edit.Takes.of_mapM (mergeEndpointFile_same _ _) hrs
  obtain ⟨hbasePath, hbasePrevious⟩ := baseDocument_takes hbase
  cases hend
  refine ⟨hbasePath, hbasePrevious, ⟨es, (Edit.Takes.of_ofLogged hes).1, ?_⟩, fun e he f hf => ?_⟩
  · exact (map_eq_of_forall₂ (hchecked.imp fun _ _ h => h.1)).trans
      (map_eq_of_forall₂ (hmerged.imp fun _ _ h => (mergeEndpointFile_takes h).1))
  · obtain ⟨e', he', -, hsame⟩ := exists_of_forall₂ hchecked he
    obtain rfl := hsame f hf
    obtain ⟨endpoint, -, hmade⟩ := exists_of_forall₂ hmerged he'
    exact (mergeEndpointFile_takes hmade).2 f hf

/-! ## Writing -/

/-- What is on a disk after some files were written, one after the other. -/
structure Written (target : Path) (fs : List GeneratedFile) (d d' : Disk) : Prop where
  here : d'.here = d.here
  files : SameFiles (fun m => ∀ f ∈ fs, m ≠ d.place (target.child f.path)) d d'
  keeps : ∀ q v, d.readText q = .ok v →
    (∀ f ∈ fs, d.place (target.child f.path) = d.place q → unifyLineEnds f.content = v) → d'.readText q = .ok v
  holds : ∀ f ∈ fs,
    (∀ g ∈ fs, d.place (target.child g.path) = d.place (target.child f.path) →
      unifyLineEnds g.content = unifyLineEnds f.content) →
    d'.readText (target.child f.path) = .ok (unifyLineEnds f.content)

theorem Written.nil (target : Path) (d : Disk) : Written target [] d d where
  here := rfl
  files := .refl _ d
  keeps _ _ h _ := h
  holds _ h := by cases h

theorem Written.cons {target : Path} {f : GeneratedFile} {fs : List GeneratedFile} {d d₁ d' : Disk} {u : Unit}
    (h : (writeAtomically (target.child f.path) f.content).Takes d u d₁) (hrest : Written target fs d₁ d') :
    Written target (f :: fs) d d' := by
  obtain ⟨hf, hkeeps⟩ := writeAtomically_readText h
  have hplace := hkeeps.place
  refine ⟨hrest.here.trans hkeeps.here, ?_, fun q v hq hsame => ?_, fun g hg hsame => ?_⟩
  · refine ((writeAtomically_changes h).mono fun m hm => hm f List.mem_cons_self).trans
      (hrest.files.mono fun m hm g hg => ?_)
    rw [hplace]
    exact hm g (List.mem_cons_of_mem _ hg)
  · refine hrest.keeps q v (writeAtomically_keepsText h hq (hsame f List.mem_cons_self)) fun g hg => ?_
    rw [hplace, hplace]
    exact hsame g (List.mem_cons_of_mem _ hg)
  · simp only [List.mem_cons] at hg
    by_cases hmem : g ∈ fs
    · refine hrest.holds g hmem fun g' hg' => ?_
      rw [hplace, hplace]
      exact hsame g' (List.mem_cons_of_mem _ hg')
    · obtain rfl := hg.resolve_right hmem
      refine hrest.keeps _ _ hf fun g' hg' => ?_
      rw [hplace, hplace]
      exact hsame g' (List.mem_cons_of_mem _ hg')

theorem written_of_mapM {target : Path} : ∀ {fs : List GeneratedFile} {d d' : Disk} {paths : List Text},
    (fs.mapM fun f => do
      writeAtomically (target.child f.path) f.content
      Edit.log .info ("Wrote " ++ f.path)
      return f.path : Edit Disk (List Text)).Takes d paths d' → Written target fs d d'
  | [], d, d', paths, h => by
    rw [List.mapM_nil] at h
    obtain ⟨l, l', h⟩ := h
    cases h
    exact .nil target d
  | f :: fs, d, d', paths, h => by
    rw [List.mapM_cons] at h
    obtain ⟨path, d₁, hwrite, h₁⟩ := Edit.Takes.of_bind h
    obtain ⟨paths', d₂, hrest, l, l', hend⟩ := Edit.Takes.of_bind h₁
    obtain ⟨u, d₃, hfile, hlog⟩ := Edit.Takes.of_bind hwrite
    obtain ⟨m, m', hreturn⟩ := Edit.Takes.of_log_bind hlog
    cases hend
    cases hreturn
    exact .cons hfile (written_of_mapM hrest)

theorem writeFiles_takes {target : Path} {fs : List GeneratedFile} {d d' : Disk} {paths : List Text}
    (h : (writeFiles target fs).Takes d paths d') : Written target (fs.filter GeneratedFile.isChanged) d d' :=
  written_of_mapM h

theorem updateManifest_takes {p : Path} {b : Bool} {d d' : Disk} (h : (updateManifest p).Takes d b d') :
    KeepsBut (d.place p) d d' := by
  unfold updateManifest at h
  obtain ⟨existing, -, h₁⟩ := Edit.Takes.of_ask_bind h
  obtain ⟨merged, -, h₂⟩ := Edit.Takes.of_same_bind (Edit.Moves.ofOutcome _) h₁
  split at h₂
  · obtain ⟨l, l', hend⟩ := h₂
    cases hend
    exact .refl _ _
  · obtain ⟨u, d₁, hwrite, h₃⟩ := Edit.Takes.of_bind h₂
    obtain ⟨l, l', hend⟩ := Edit.Takes.of_log_bind h₃
    cases hend
    exact (writeAtomically_readText hwrite).2

/-! ## The whole -/

theorem file?_eq_some {r : EndpointResult} {f : GeneratedFile} : r.file? = some f ↔ r.outcome = .ok f := by
  unfold EndpointResult.file?
  cases r.outcome <;> simp

theorem mem_modules {r : Report} {f : GeneratedFile} : f ∈ r.modules ↔ ∃ e ∈ r.endpoints, e.outcome = .ok f := by
  unfold Report.modules
  simp only [List.mem_filterMap, file?_eq_some]

theorem outcome_of_isOk {r : Report} (h : r.isOk = true) {e : EndpointResult} (he : e ∈ r.endpoints) :
    ∃ f, e.outcome = .ok f := by
  cases hf : e.outcome with
  | ok f => exact ⟨f, rfl⟩
  | error f =>
    have hmem : f ∈ r.failures := List.mem_filterMap.2 ⟨e, he, by unfold EndpointResult.failure?; rw [hf]⟩
    rw [Report.isOk, List.isEmpty_iff] at h
    rw [h] at hmem
    cases hmem

/-- What a generation that writes did after all was prepared. -/
theorem generate_takes {d : Spec.ApiDocument} {s : Settings} {disk disk' : Disk} {r : Report}
    (h : (generate d s false).Takes disk r disk') (hok : r.isOk = true) :
    ∃ disk₁ disk₂, Prepared d s.target disk₁ r ∧
      Written s.target ((r.baseDocument :: r.modules).filter GeneratedFile.isChanged) disk₁ disk₂ ∧
      KeepsBut (disk₂.place s.manifestPath) disk₂ disk' := by
  unfold generate at h
  obtain ⟨r₀, disk₁, hprepare, h₁⟩ := Edit.Takes.of_bind h
  have hprepared := prepare_takes hprepare
  simp only [Bool.false_eq_true, if_false] at h₁
  split at h₁
  · rename_i hblocked
    obtain ⟨l, l', hend⟩ := Edit.Takes.of_log_bind h₁
    cases hend
    simp [hok] at hblocked
  · obtain ⟨paths, disk₂, hwrite, h₂⟩ := Edit.Takes.of_bind h₁
    obtain ⟨b, disk₃, hmanifest, l, l', hend⟩ := Edit.Takes.of_bind h₂
    cases hend
    exact ⟨disk₁, disk₂, ⟨hprepared.basePath, hprepared.basePrevious, hprepared.endpoints, hprepared.modules⟩,
      writeFiles_takes hwrite, updateManifest_takes hmanifest⟩

theorem readText_of_readText? {d : Disk} {p : Path} {t : Text} (h : d.readText? p = .ok (some t)) :
    d.readText p = .ok t := by
  unfold readText? at h
  cases hb : d.holds p with
  | error f => simp [hb, bind, Except.bind] at h
  | ok b =>
    cases b with
    | false => simp [hb, bind, Except.bind, pure, Except.pure] at h
    | true =>
      cases ht : d.readText p with
      | error f => simp [hb, ht, bind, Except.bind, Functor.map, Except.map] at h
      | ok u => simpa [hb, ht, bind, Except.bind, Functor.map, Except.map] using h

/-- A file is on the disk after those that change were written, when no file of its place differs. -/
theorem Written.readText {target : Path} {fs : List GeneratedFile} {f : GeneratedFile} {disk disk' : Disk}
    (h : Written target (fs.filter GeneratedFile.isChanged) disk disk') (hf : f ∈ fs)
    (hprevious : disk.readText? (target.child f.path) = .ok f.previous)
    (hsame : ∀ g ∈ fs, disk.place (target.child g.path) = disk.place (target.child f.path) →
      unifyLineEnds g.content = unifyLineEnds f.content) :
    disk'.readText (target.child f.path) = .ok (unifyLineEnds f.content) := by
  by_cases hchanged : f.isChanged
  · exact h.holds f (List.mem_filter.2 ⟨hf, hchanged⟩) fun g hg => hsame g (List.mem_filter.1 hg).1
  · have hsome : f.previous = some f.content := by simpa [GeneratedFile.isChanged] using hchanged
    rw [hsome] at hprevious
    have hread := readText_of_readText? hprevious
    have hunified := unifyLineEnds_of_readText hread
    rw [hunified]
    exact h.keeps _ _ hread fun g hg hplace => (hsame g (List.mem_filter.1 hg).1 hplace).trans hunified

/-- The base document is on the disk after all files were written, as no module has its place. -/
theorem Prepared.readText_base {d : Spec.ApiDocument} {target : Path} {disk disk' : Disk} {r : Report}
    (h : Prepared d target disk r)
    (hwritten : Written target ((r.baseDocument :: r.modules).filter GeneratedFile.isChanged) disk disk') :
    disk'.readText (target.child r.baseDocument.path) = .ok (unifyLineEnds r.baseDocument.content) := by
  refine hwritten.readText List.mem_cons_self h.basePrevious fun g hg hplace => ?_
  obtain rfl | hmodule := List.mem_cons.1 hg
  · rfl
  · obtain ⟨e, he, hf⟩ := mem_modules.1 hmodule
    obtain ⟨p, hpath⟩ := (h.modules e he g hf).file
    rw [h.basePath] at hplace
    exact absurd hplace (place_endpointFile_ne hpath)

/-- A module is on the disk after all files were written when no module of its place differs. -/
theorem Prepared.readText {d : Spec.ApiDocument} {target : Path} {disk disk' : Disk} {r : Report} {e : EndpointResult}
    {f : GeneratedFile} (h : Prepared d target disk r)
    (hwritten : Written target ((r.baseDocument :: r.modules).filter GeneratedFile.isChanged) disk disk')
    (he : e ∈ r.endpoints) (hf : e.outcome = .ok f)
    (hsame : ∀ g ∈ r.modules, disk.place (target.child g.path) = disk.place (target.child f.path) →
      unifyLineEnds g.content = unifyLineEnds f.content) :
    disk'.readText (target.child f.path) = .ok (unifyLineEnds f.content) := by
  obtain ⟨-, ⟨p, hpath⟩, hprevious⟩ := h.modules e he f hf
  refine hwritten.readText (List.mem_cons_of_mem _ (mem_modules.2 ⟨e, he, hf⟩)) hprevious fun g hg hplace => ?_
  obtain rfl | hmodule := List.mem_cons.1 hg
  · rw [h.basePath] at hplace
    exact absurd hplace.symm (place_endpointFile_ne hpath)
  · exact hsame g hmodule hplace

/-- **Every module that a generation reports is on the disk exactly when no two modules of one place
differ.** -/
theorem generate_keeps_modules {d : Spec.ApiDocument} {s : Settings} {disk disk' : Disk} {r : Report}
    {logs : List Record} (h : (generate d s false).perform disk = (disk', .ok r, logs)) (hok : r.isOk = true)
    (hmanifest : ∀ f ∈ r.modules, disk'.place s.manifestPath ≠ disk'.place (s.target.child f.path)) :
    (∃ es, d.endpoints.2 = .ok es ∧ r.endpoints.map (·.endpoint) = es.map (·.path)) ∧
    ((∀ e ∈ r.endpoints, ∃ f, e.outcome = .ok f ∧ e.path = some f.path ∧
        disk'.readText (s.target.child f.path) = .ok (unifyLineEnds f.content)) ↔
      ∀ f ∈ r.modules, ∀ g ∈ r.modules,
        disk'.place (s.target.child f.path) = disk'.place (s.target.child g.path) →
          unifyLineEnds f.content = unifyLineEnds g.content) := by
  obtain ⟨disk₁, disk₂, hprepared, hwritten, hkeeps⟩ := generate_takes (Edit.Takes.of_perform h) hok
  have hplace : ∀ p, disk'.place p = disk₁.place p := place_congr (hkeeps.here.trans hwritten.here)
  have hplace₂ : ∀ p, disk₂.place p = disk'.place p := fun p => (hkeeps.place p).symm
  refine ⟨hprepared.endpoints, fun hall f hf g hg hsame => ?_, fun hall e he => ?_⟩
  · obtain ⟨e, he, hef⟩ := mem_modules.1 hf
    obtain ⟨e', he', heg⟩ := mem_modules.1 hg
    obtain ⟨f', hf', -, hreadf⟩ := hall e he
    obtain ⟨g', hg', -, hreadg⟩ := hall e' he'
    obtain rfl := Except.ok.inj (hef.symm.trans hf')
    obtain rfl := Except.ok.inj (heg.symm.trans hg')
    exact Except.ok.inj ((readText_of_place (find_of_readText hreadg) hsame hreadf).symm.trans hreadg)
  · obtain ⟨f, hf⟩ := outcome_of_isOk hok he
    have hmem : f ∈ r.modules := mem_modules.2 ⟨e, he, hf⟩
    refine ⟨f, hf, (hprepared.modules e he f hf).path, hkeeps.readText ?_ (hprepared.readText hwritten he hf ?_)⟩
    · rw [hplace₂, hplace₂]
      exact Ne.symm (hmanifest f hmem)
    · intro g hg hsame
      rw [← hplace, ← hplace] at hsame
      exact hall g hg f hmem hsame

/-- A disk with an app whose version `v1` was staged, without modules. -/
def stagedDisk : Disk where
  items := [(["src"], .folder), (["src", "api"], .folder), (["src", "api", "v1"], .folder),
    (["src", "api", "v1", "index.js"], .file []), (["src", "index.js"], .file [])]

theorem generate_keeps_modules_sample : ∃ disk r logs,
    (generate { paths := [("/a", some []), ("/b/", some [])] } { bootstrapFile := "main.js" } false).perform stagedDisk =
      (disk, .ok r, logs) ∧
    ∀ e ∈ r.endpoints, ∃ f, e.outcome = .ok f ∧ e.path = some f.path ∧
      disk.readText (Path.child {} f.path) = .ok (unifyLineEnds f.content) := by
  generalize hp : (generate { paths := [("/a", some []), ("/b/", some [])] } { bootstrapFile := "main.js" }
    false).perform stagedDisk = run
  have hrun : (run.2.1.toOption.any fun r => r.isOk && r.modules.all fun f =>
      run.1.place (Path.child {} "package.json") != run.1.place (Path.child {} f.path) &&
        r.modules.all fun g => decide (run.1.place (Path.child {} f.path) = run.1.place (Path.child {} g.path) →
          unifyLineEnds f.content = unifyLineEnds g.content)) = true := by
    rw [← hp]
    decide +kernel
  obtain ⟨disk, r | r, logs⟩ := run
  · cases hrun
  · simp only [Except.toOption, Option.any_some, Bool.and_eq_true, List.all_eq_true, bne_iff_ne, decide_eq_true_eq] at hrun
    exact ⟨disk, r, logs, rfl, (generate_keeps_modules hp hrun.1 fun f hf => (hrun.2 f hf).1).2.2
      fun f hf => (hrun.2 f hf).2⟩

/-- The paths `/a` and `/a/` have one module: what is written for the first is lost. -/
theorem generate_loses_module : ¬ ∀ (d : Spec.ApiDocument) (s : Settings) (disk disk' : Disk) (r : Report)
    (logs : List Record), (generate d s false).perform disk = (disk', .ok r, logs) → r.isOk = true →
      ∀ f ∈ r.modules, disk'.readText (s.target.child f.path) = .ok f.content := by
  intro hall
  have hkept := hall { paths := [("/a", some []), ("/a/", some [("parameters", .list [])])] } { bootstrapFile := "main.js" }
    stagedDisk
  generalize hp : (generate { paths := [("/a", some []), ("/a/", some [("parameters", .list [])])] }
    { bootstrapFile := "main.js" } false).perform stagedDisk = run at hkept
  have hrun : (run.2.1.toOption.any fun r => r.isOk && r.modules.any fun f =>
      (run.1.readText (Path.child {} f.path)).toOption != some f.content) = true := by
    rw [← hp]
    decide +kernel
  obtain ⟨disk, r | r, logs⟩ := run
  · cases hrun
  · simp only [Except.toOption, Option.any_some, Bool.and_eq_true, List.any_eq_true, bne_iff_ne] at hrun
    obtain ⟨hok, f, hf, hlost⟩ := hrun
    have hread := hkept disk r logs rfl hok f hf
    exact hlost (by rw [show Path.child {} f.path = Path.child (Settings.target {}) f.path from rfl, hread])

end ApiRoutes.Project
