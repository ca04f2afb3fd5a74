import ApiRoutes.Proofs.Project.Staging
/-!
# Dry runs

A dry run asks the disk what a real run asks the disk that it has already changed.  The answers agree on
a tree, by straight paths, as long as a bootstrap module that is only staged is spelled as the skeleton
spells it (`generate_dryRun`): the skeleton is found missing in the same places, the version is
registered in the same text, and what is read for the base document and the modules is not what was
just written.
-/
namespace ApiRoutes.Project

open Disk

variable {disk disk' : Disk} {target : Path} {tag : Text} {s : Settings}

/-! ## Paths below the folder of the app -/

theorem child_names {t : Text} (hroot : Path.rootOf t = []) : target.child t = ⟨target.root, target.names ++ namesOf t⟩ := by
  unfold Path.child Path.join
  rw [show (Path.ofText t).root = [] from hroot, if_pos (by rfl)]
  rfl

theorem straight_child {t : Text} (hs : disk.straight target = true) (hroot : Path.rootOf t = [])
    (hup : Path.up ∉ namesOf t) : disk.straight (target.child t) = true := by
  rw [child_names hroot]
  exact straightFrom_append hup hs

theorem up_not_mem_versionFile {t : Text} (htag : CodePoint.scalar '.' ∉ tag) (ht : Path.up ∉ namesOf t) :
    Path.up ∉ namesOf (versionFile tag t) := by
  rw [namesOf_versionFile, List.mem_append, not_or]
  exact ⟨up_not_mem_versionNames htag, ht⟩

theorem straight_versionFile {t : Text} (hs : disk.straight target = true) (htag : CodePoint.scalar '.' ∉ tag)
    (ht : Path.up ∉ namesOf t) : disk.straight (target.child (versionFile tag t)) = true :=
  straight_child hs (rootOf_versionFile tag t) (up_not_mem_versionFile htag ht)

theorem straight_endpointFile {path file : Text} (hs : disk.straight target = true) (htag : CodePoint.scalar '.' ∉ tag)
    (h : Route.endpointFile tag path = .ok file) : disk.straight (target.child file) = true := by
  obtain ⟨name, rfl, hsegments⟩ := endpointFile_ok h
  refine straight_versionFile hs htag ?_
  rw [namesOf_module, List.mem_append, not_or]
  exact ⟨by decide, up_not_mem_moduleNames hsegments⟩

/-! ## The skeleton -/

theorem parent_index : (target.child (versionFile tag "index.js")).parent = ⟨target.root, target.names ++ versionNames tag⟩ := by
  have hnames : namesOf (Text.ofString "index.js") = [("index.js" : Text)] := by decide
  rw [child_names (rootOf_versionFile tag _), namesOf_versionFile, hnames, Path.parent, ← List.append_assoc]
  simp only [List.dropLast_concat]

theorem place_bootstrap_ne (htag : CodePoint.scalar '.' ∉ tag) :
    disk.place (target.child "src/index.js") ≠ disk.place (target.child (versionFile tag "index.js")) := by
  rw [place_bootstrap, place_versionFile htag (by decide), List.append_assoc]
  intro heq
  rw [List.append_cancel_left_eq] at heq
  unfold versionNames at heq
  simp only [List.cons_append, List.nil_append, List.cons.injEq] at heq
  exact absurd heq.2.1 (by decide)

/-- The folders that are made for the module of a version are not in the place of the bootstrap module. -/
theorem bootstrap_not_above (hs : disk.straight target = true) (htag : CodePoint.scalar '.' ∉ tag)
    (hfree : disk.item? (disk.place (target.child "src/index.js")) = none) (k : Nat) :
    disk.place (target.child "src/index.js") ≠
      disk.place ⟨target.root, (target.names ++ versionNames tag).take k⟩ := by
  intro heq
  have hup : Path.up ∉ (target.names ++ versionNames tag).drop k := by
    refine straightFrom_drop k (straightFrom_append (up_not_mem_versionNames htag) hs) ?_
    rw [heq] at hfree
    unfold place at hfree
    rw [hfree]
    simp
  have hplace : disk.place ⟨target.root, target.names ++ versionNames tag⟩ = disk.place target ++ versionNames tag := by
    unfold place
    rw [List.foldl_append, foldl_further (up_not_mem_versionNames htag)]
  have hsplit : disk.place ⟨target.root, target.names ++ versionNames tag⟩ =
      disk.place (target.child "src/index.js") ++ (target.names ++ versionNames tag).drop k := by
    rw [heq]
    unfold place
    rw [← foldl_further hup, ← List.foldl_append, List.take_append_drop]
  rw [hplace, place_bootstrap, List.append_assoc, List.append_cancel_left_eq] at hsplit
  unfold versionNames at hsplit
  simp only [List.cons_append, List.nil_append, List.cons.injEq] at hsplit
  exact absurd hsplit.2.1 (by decide)

/-- What is held can be asked before folders and a file elsewhere were added. -/
theorem bootstrap_holds_before {content : Text} {o : Option Text} (htree : disk.IsTree) (hs : disk.straight target = true)
    (htag : CodePoint.scalar '.' ∉ tag)
    (hcreates : Creates (target.child (versionFile tag "index.js")) content disk disk')
    (h : stagedFile target "src/index.js" disk' = .ok o) : stagedFile target "src/index.js" disk = .ok o := by
  have hstraight : disk.straight (target.child "src/index.js") = true :=
    straight_child hs (rootOf_cons (by decide)) (by decide)
  have hkeeps := hcreates.keepsAt
  have hne : disk.place (target.child "src/index.js") ≠ disk.place (target.child (versionFile tag "index.js")) :=
    place_bootstrap_ne htag
  -- There is something in the place afterwards exactly when there was before.
  have hitem : (disk'.item? (disk.place (target.child "src/index.js"))).isSome =
      (disk.item? (disk.place (target.child "src/index.js"))).isSome := by
    obtain ⟨d₁, hfolders, -, -, hitems⟩ := hcreates.folders
    rw [hitems _ hne]
    rw [parent_index] at hfolders
    cases hi : disk.item? (disk.place (target.child "src/index.js")) with
    | some i => rw [(hfolders.moves (ensureFolders_adds _)).grows.items _ i hi]
    | none =>
      have hsame := hfolders.movesFrom (ensureFolders_items (P := (· = disk.place (target.child "src/index.js")))
        fun k m hm => hm ▸ bootstrap_not_above hs htag hi k)
      rw [hsame.items _ rfl, hi]
  unfold stagedFile holds at h ⊢
  cases hx' : disk'.at? (target.child "src/index.js") with
  | error f =>
    rw [hx'] at h
    cases h
  | ok x' =>
    obtain ⟨x, hx⟩ := at?_before hkeeps.here hkeeps.folders hx'
    have hsome : x.isSome = x'.isSome := by
      cases hc : (target.child "src/index.js").check with
      | error f =>
        rw [at?_of_check hc] at hx hx'
        cases hx
        cases hx'
        rfl
      | ok u =>
        have hplace := at?_place htree hstraight hc hx
        obtain ⟨-, rfl⟩ | ⟨hclosed, rfl⟩ := at?_ok hc hx'
        · rw [hplace, place_congr hkeeps.here, hitem]
        · obtain ⟨hl, -⟩ | ⟨-, rfl⟩ := at?_ok hc hx
          · rw [locate_mono hkeeps.here hkeeps.folders hl] at hclosed
            obtain h | h := hclosed <;> cases h
          · rfl
    rw [hx'] at h
    rw [hx]
    simp only [bind, Except.bind, pure, Except.pure] at h ⊢
    rw [hsome]
    exact h

/-- A file that was staged: its text is the one of the skeleton, and there was nothing in its place. -/
structure Fresh (target : Path) (tag : Text) (disk disk' : Disk) (path : Text) : Prop where
  missing : disk.item? (disk.place (target.child path)) = none
  file : ∃ f ∈ skeletonFiles, skeletonText? path tag = some f.2 ∧ ∃ bytes, f.2.toUtf8? = some bytes ∧
    disk'.item? (disk.place (target.child path)) = some (.file bytes)

theorem missing_of_stagedFile {path t : Text} (htree : disk.IsTree) (hs : disk.straight (target.child path) = true)
    (hc : (target.child path).check = .ok ()) (h : stagedFile target path disk = .ok (some t)) :
    disk.item? (disk.place (target.child path)) = none := by
  unfold stagedFile holds at h
  cases hx : disk.at? (target.child path) with
  | error f =>
    rw [hx] at h
    cases h
  | ok x =>
    rw [hx] at h
    rw [← at?_place htree hs hc hx]
    cases x with
    | none => rfl
    | some i => cases h

theorem skeletonText?_index (tag : Text) :
    skeletonText? (versionFile tag "index.js") tag = some (textOfLines versionIndexLines) := by
  unfold skeletonText? skeletonFiles
  rw [List.find?_cons, pathFor_index, beq_self_eq_true]
  rfl

theorem index_ne_bootstrap (tag : Text) : versionFile tag "index.js" ≠ Text.ofString "src/index.js" := by
  intro heq
  have hnames := congrArg namesOf heq
  rw [namesOf_versionFile, show namesOf (Text.ofString "src/index.js") = [("src" : Text), ("index.js" : Text)] by decide] at hnames
  unfold versionNames at hnames
  simp only [List.cons_append, List.nil_append, List.cons.injEq] at hnames
  exact absurd hnames.2.1 (by decide)

theorem skeletonText?_bootstrap (tag : Text) : skeletonText? "src/index.js" tag = some (textOfLines bootstrapLines) := by
  unfold skeletonText? skeletonFiles
  rw [List.find?_cons, pathFor_index, beq_eq_false_iff_ne.2 (index_ne_bootstrap tag), List.find?_cons, pathFor_bootstrap,
    beq_self_eq_true]
  rfl

theorem Fresh.of_creates {path : Text} {content : Text} {d₁ : Disk} (htree : disk.IsTree)
    (hs : disk.straight (target.child path) = true) (hfound : stagedFile target path disk = .ok (some path))
    (hmem : ∃ f ∈ skeletonFiles, skeletonText? path tag = some f.2 ∧ f.2 = content) (hhere : d₁.here = disk.here)
    (hcreates : Creates (target.child path) content d₁ disk') : Fresh target tag disk disk' path := by
  obtain ⟨f, hf, htext, rfl⟩ := hmem
  obtain ⟨bytes, hbytes, hitem⟩ := hcreates.file
  rw [place_congr hhere] at hitem
  exact ⟨missing_of_stagedFile htree hs hcreates.checked hfound, f, hf, htext, bytes, hbytes, hitem⟩

theorem Fresh.keeps {path : Text} {d₁ : Disk} {P : Location → Prop} (h : Fresh target tag disk d₁ path)
    (hkeeps : KeepsAt P d₁ disk') (hP : P (disk.place (target.child path))) : Fresh target tag disk disk' path := by
  obtain ⟨f, hf, htext, bytes, hbytes, hitem⟩ := h.file
  exact ⟨h.missing, f, hf, htext, bytes, hbytes, (hkeeps.files _ hP bytes).2 hitem⟩

/-- **A dry run stages what a real run stages**, which keeps all files but those. -/
theorem stageSkeleton_before {staged : List Text} (htree : disk.IsTree) (hs : disk.straight target = true)
    (htag : CodePoint.scalar '.' ∉ tag) (h : (stageSkeleton target tag false).Takes disk staged disk') :
    missingFiles target tag disk = .ok staged ∧
      KeepsAt (fun m => ∀ t ∈ staged, m ≠ disk.place (target.child t)) disk disk' ∧
      ∀ t ∈ staged, Fresh target tag disk disk' t := by
  rw [stageSkeleton_eq] at h
  obtain ⟨a, d₁, ha, h₁⟩ := Edit.Takes.of_bind h
  obtain ⟨b, d₂, hb, h₂⟩ := Edit.Takes.of_bind h₁
  obtain ⟨rfl, rfl⟩ := h₂.eq_of_pure
  obtain ⟨hafound, hastep⟩ := stageFile_takes ha
  obtain ⟨hbfound, hbstep⟩ := stageFile_takes hb
  -- The first file: kept, or created.
  have hfirst : KeepsAt (fun m => ∀ t ∈ a, m ≠ disk.place (target.child t)) disk d₁ ∧
      (∀ t ∈ a, t = versionFile tag "index.js" ∧ Fresh target tag disk d₁ t) ∧
      stagedFile target "src/index.js" disk = .ok b := by
    obtain ⟨rfl, rfl⟩ | ⟨rfl, hcreates⟩ := hastep
    · exact ⟨.refl _ _, by simp, hbfound⟩
    · refine ⟨hcreates.keepsAt.mono fun m hm => hm _ rfl, fun t ht => ?_, bootstrap_holds_before htree hs htag hcreates hbfound⟩
      cases ht
      exact ⟨rfl, .of_creates htree (straight_versionFile hs htag (by decide)) hafound
        ⟨_, List.mem_cons_self, skeletonText?_index tag, rfl⟩ rfl hcreates⟩
  obtain ⟨hkeeps₁, hfresh₁, hbefore⟩ := hfirst
  -- The second file, on the disk with the first one.
  have hsecond : KeepsAt (fun m => ∀ t ∈ b, m ≠ disk.place (target.child t)) d₁ disk' ∧
      ∀ t ∈ b, t = Text.ofString "src/index.js" ∧ Fresh target tag disk disk' t := by
    obtain ⟨rfl, rfl⟩ | ⟨rfl, hcreates⟩ := hbstep
    · exact ⟨.refl _ _, by simp⟩
    · refine ⟨hcreates.keepsAt.mono fun m hm => by rw [place_congr hkeeps₁.here]; exact hm _ rfl, fun t ht => ?_⟩
      cases ht
      exact ⟨rfl, .of_creates htree (straight_child hs (rootOf_cons (by decide)) (by decide)) hbefore
        ⟨_, List.mem_cons_of_mem _ List.mem_cons_self, skeletonText?_bootstrap tag, rfl⟩ hkeeps₁.here hcreates⟩
  obtain ⟨hkeeps₂, hfresh₂⟩ := hsecond
  have hmem : ∀ t, t ∈ [a, b].filterMap id ↔ t ∈ a ∨ t ∈ b := fun t => by
    simp only [List.mem_filterMap, List.mem_cons, List.not_mem_nil, or_false, id_eq, exists_eq_or_imp, exists_eq_left,
      Option.mem_def]
  refine ⟨bind_eq_ok.2 ⟨a, hafound, bind_eq_ok.2 ⟨b, hbefore, rfl⟩⟩, ?_, ?_⟩
  · refine (hkeeps₁.mono fun m hm t ht => ?_).trans (hkeeps₂.mono fun m hm t ht => ?_)
    · exact hm t ((hmem t).2 (.inl ht))
    · exact hm t ((hmem t).2 (.inr ht))
  · intro t ht
    obtain ht | ht := (hmem t).1 ht
    · obtain ⟨rfl, hfresh⟩ := hfresh₁ t ht
      have hother : ∀ u ∈ b, disk.place (target.child (versionFile tag "index.js")) ≠ disk.place (target.child u) := by
        intro u hu
        obtain ⟨rfl, -⟩ := hfresh₂ u hu
        exact (place_bootstrap_ne htag).symm
      exact hfresh.keeps hkeeps₂ hother
    · exact (hfresh₂ t ht).2

/-! ## The bootstrap module -/

theorem return_not_mem_textOfLines {lines : List String} (h : ∀ l ∈ lines, (13 : UInt8) ∉ l.toUTF8.data.toList) :
    CodePoint.scalar '\r' ∉ textOfLines lines := by
  intro hmem
  obtain ⟨l, hl, hmem⟩ := List.mem_flatMap.1 hmem
  obtain hmem | hmem := List.mem_append.1 hmem
  · obtain ⟨c, hc, hreturn⟩ := List.mem_map.1 hmem
    cases hreturn
    exact h l hl (Text.mem_toUTF8 hc 13 (by decide))
  · exact absurd hmem (by decide)

/-- No text of the skeleton has another line end than line feeds. -/
theorem unifyLineEnds_skeleton : ∀ f ∈ skeletonFiles, unifyLineEnds f.2 = f.2 := by
  -- The bytes of the lines are searched: to read their characters takes an evaluation five times as long.
  have hfree : ∀ l ∈ versionIndexLines ++ bootstrapLines, (13 : UInt8) ∉ l.toUTF8.data.toList := by decide +kernel
  intro f hf
  refine unifyLineEnds_of_not_mem ?_
  obtain rfl | rfl : f = _ ∨ f = _ := by simpa [skeletonFiles] using hf
  · exact return_not_mem_textOfLines fun l hl => hfree l (List.mem_append_left _ hl)
  · exact return_not_mem_textOfLines fun l hl => hfree l (List.mem_append_right _ hl)

/-- A staged file reads as the skeleton has it. -/
theorem Fresh.reads {path : Text} (h : Fresh target tag disk disk' path) (t : Text) :
    textOf t (disk'.item? (disk.place (target.child path))) = .ok (skeletonText? path tag) := by
  obtain ⟨f, hf, htext, bytes, hbytes, hitem⟩ := h.file
  rw [hitem, htext]
  unfold textOf
  simp only [Text.ofUtf8?_of_toUtf8? hbytes, unifyLineEnds_skeleton f hf]

/-- What is read from the place of a file that was just staged: its text, or nothing when the way is
closed.  Before, there was nothing. -/
theorem readText?_fresh {p : Path} {path : Text} {v : Option Text} (htree : disk.IsTree) (hs : disk.straight p = true)
    (hfresh : Fresh target tag disk disk' path) (hplace : disk.place (target.child path) = disk.place p)
    (hhere : disk'.here = disk.here) (hfolders : ∀ m, disk.item? m = some .folder → disk'.item? m = some .folder)
    (h : disk'.readText? p = .ok v) :
    disk.readText? p = .ok none ∧ (v = none ∨ v = skeletonText? path tag) := by
  obtain ⟨x', hx', hv⟩ := at?_of_readText? h
  obtain ⟨x, hx⟩ := at?_before hhere hfolders hx'
  rw [readText?_of_at? hx]
  cases hc : p.check with
  | error g =>
    rw [at?_of_check hc] at hx hx'
    cases hx
    cases hx'
    cases hv
    exact ⟨rfl, .inl rfl⟩
  | ok u =>
    rw [at?_place htree hs hc hx, ← hplace, hfresh.missing]
    refine ⟨rfl, ?_⟩
    obtain ⟨-, rfl⟩ | ⟨-, rfl⟩ := at?_ok hc hx'
    · rw [place_congr hhere, ← hplace, hfresh.reads] at hv
      exact .inr (Except.ok.inj hv).symm
    · cases hv
      exact .inl rfl

/-- **The version is registered in the same text.** -/
theorem registered_before {staged : List Text} {b : Option GeneratedFile} (htree : disk.IsTree)
    (hs : disk.straight s.bootstrapPath = true)
    (hkeeps : KeepsAt (fun m => ∀ t ∈ staged, m ≠ disk.place (s.target.child t)) disk disk')
    (hfresh : ∀ t ∈ staged, Fresh s.target tag disk disk' t)
    (hspelled : ∀ t ∈ staged, disk.place (s.target.child t) = disk.place s.bootstrapPath → t = s.bootstrapFile)
    (h : registered s tag staged disk' = .ok b) :
    ∃ previous, registered s tag staged disk = .ok (b.map fun f => { f with previous }) ∧
      disk.readText? s.bootstrapPath = .ok previous := by
  have hread : ∃ v, disk'.readText? s.bootstrapPath = .ok v := by
    cases hv : disk'.readText? s.bootstrapPath with
    | ok v => exact ⟨v, rfl⟩
    | error f =>
      unfold registered bootstrapOf at h
      rw [hv] at h
      cases h
  obtain ⟨v, hv⟩ := hread
  -- The text is the same, though it may come from the disk in one run and from the skeleton in the other.
  have htext : ∃ previous, disk.readText? s.bootstrapPath = .ok previous ∧
      (if previous.isNone && staged.contains s.bootstrapFile then skeletonText? s.bootstrapFile tag else previous) =
        if v.isNone && staged.contains s.bootstrapFile then skeletonText? s.bootstrapFile tag else v := by
    by_cases hplace : ∃ t ∈ staged, disk.place (s.target.child t) = disk.place s.bootstrapPath
    · obtain ⟨t, ht, hplace⟩ := hplace
      obtain rfl := hspelled t ht hplace
      obtain ⟨hnone, rfl | rfl⟩ := readText?_fresh htree hs (hfresh _ ht) hplace hkeeps.here hkeeps.folders hv
      · exact ⟨none, hnone, rfl⟩
      · refine ⟨none, hnone, ?_⟩
        have hcontains : staged.contains s.bootstrapFile = true := by simpa using ht
        simp only [Option.isNone_none, hcontains, Bool.and_true, if_true]
        split <;> rfl
    · refine ⟨v, hkeeps.readText? htree hs (fun t ht heq => hplace ⟨t, ht, heq.symm⟩) hv, rfl⟩
  obtain ⟨previous, hprevious, htext⟩ := htext
  refine ⟨previous, ?_, hprevious⟩
  unfold registered at h ⊢
  rw [bootstrapOf_of_read hv] at h
  rw [bootstrapOf_of_read hprevious, htext]
  simp only [bind, Except.bind] at h ⊢
  cases hcase : (if v.isNone && staged.contains s.bootstrapFile then skeletonText? s.bootstrapFile tag else v) with
  | none =>
    rw [hcase] at h
    cases h
    rfl
  | some text =>
    rw [hcase] at h
    simp only at h ⊢
    cases hpatched : (patchBootstrap s.wiring tag text (some s.bootstrapFile)).2 with
    | error f =>
      rw [hpatched] at h
      cases h
    | ok patched =>
      rw [hpatched] at h
      cases h
      cases patched <;> rfl

/-! ## What is generated -/

/-- A file that cannot be read is nothing that the input explains. -/
theorem not_expected_of_readText? {p : Path} {f : Failure} (h : disk.readText? p = .error f) : f.isExpected = false := by
  cases hx : disk.at? p with
  | error g =>
    have hg : ∃ fault, g = .system fault p.text := by
      unfold at? at hx
      split at hx
      · cases hx
      · split at hx <;> cases hx
        exact ⟨_, rfl⟩
    obtain ⟨fault, rfl⟩ := hg
    unfold readText? holds at h
    rw [hx] at h
    cases h
    rfl
  | ok x =>
    rw [readText?_of_at? hx] at h
    unfold textOf at h
    split at h
    · cases h
    · cases h
      rfl
    · split at h <;> cases h
      rfl

theorem mergedEndpoint_before {e : Spec.Endpoint} {r : EndpointResult}
    (hread : ∀ file v, Route.endpointFile tag e.path = .ok file → disk'.readText? (target.child file) = .ok v →
      disk.readText? (target.child file) = .ok v)
    (h : mergedEndpoint target tag e disk' = .ok r) : mergedEndpoint target tag e disk = .ok r := by
  unfold mergedEndpoint at h ⊢
  cases hfile : Route.endpointFile tag e.path with
  | error f =>
    rw [hfile] at h
    exact h
  | ok file =>
    rw [hfile] at h
    simp only at h ⊢
    unfold mergedFile at h ⊢
    cases hv : disk'.readText? (target.child file) with
    | error f =>
      rw [hv] at h
      simp only [bind, Except.bind, reported, not_expected_of_readText? hv] at h
      cases h
    | ok v =>
      rw [hv] at h
      rw [hread file v hfile hv]
      exact h

/-- What is generated from two disks that read alike where the modules are, and both can be read where
the base document is. -/
theorem generated_before {d : Spec.ApiDocument} {g : GeneratedFile × List EndpointResult} {v : Option Text}
    (hbase : disk.readText? (target.child (baseDocumentFile d.tag)) = .ok v)
    (hmodules : ∀ es, d.endpoints.2 = .ok es → ∀ e ∈ es, ∀ file v, Route.endpointFile d.tag e.path = .ok file →
      disk'.readText? (target.child file) = .ok v → disk.readText? (target.child file) = .ok v)
    (h : generated d target disk' = .ok g) : generated d target disk = .ok ({ g.1 with previous := v }, g.2) := by
  obtain ⟨es, rs, hbase', hes, hrs, hchecked⟩ := generated_eq_ok.1 h
  obtain ⟨-, hcontent, -, hpath⟩ := baseFile_eq_ok.1 hbase'
  obtain ⟨x, hx, -⟩ := at?_of_readText? hbase
  have hholds : disk.holds (target.child (baseDocumentFile d.tag)) = .ok x.isSome := by
    unfold holds
    rw [hx]
    rfl
  have hrs' := mapM_ok_imp (fun e he r hr => mergedEndpoint_before (hmodules es hes e he) hr) hrs
  exact generated_eq_ok.2 ⟨es, rs, baseFile_eq_ok.2 ⟨⟨_, hholds⟩, hcontent, hbase, hpath⟩, hes, hrs',
    (checkedFiles_previous _ _ _).trans hchecked⟩

/-! ## The whole -/

/-- A report without what only one kind of run can tell: the texts before, and what was written. -/
def foretold (r : Report) : Text × List Text × Option (Text × Text) × (Text × Text) × List EndpointResult :=
  (r.tag, r.staged, r.bootstrap.map fun f => (f.path, f.content), (r.baseDocument.path, r.baseDocument.content),
    r.endpoints)

theorem generate_report {d : Spec.ApiDocument} {r : Report} (h : (generate d s false).Takes disk r disk') :
    ∃ r₀ disk₁, (prepare d s false).Takes disk r₀ disk₁ ∧ foretold r = foretold r₀ := by
  rw [generate_eq] at h
  obtain ⟨r₀, disk₁, hr₀, h₁⟩ := Edit.Takes.of_bind h
  refine ⟨r₀, disk₁, hr₀, ?_⟩
  split at h₁
  · obtain ⟨rfl, -⟩ := (Edit.Takes.of_log_bind h₁).eq_of_pure
    rfl
  · unfold conclude at h₁
    obtain ⟨paths, disk₂, -, h₂⟩ := Edit.Takes.of_bind h₁
    obtain ⟨b, disk₃, -, h₃⟩ := Edit.Takes.of_bind h₂
    obtain ⟨rfl, -⟩ := h₃.eq_of_pure
    rfl

theorem path_of_reported {e : Spec.Endpoint} {path : Option Text} {o : Outcome GeneratedFile} {r : EndpointResult}
    (h : reported e path o = .ok r) : r.path = path := by
  unfold reported at h
  split at h
  · cases h
    rfl
  · split at h <;> cases h
    rfl

theorem path_inLightOf (faults : List (Text × Text)) (r : EndpointResult) : (inLightOf faults r).path = r.path := by
  unfold inLightOf
  split <;> rfl

/-- Every endpoint that has a file is reported with it. -/
theorem path_of_generated {d : Spec.ApiDocument} {g : GeneratedFile × List EndpointResult} {es : List Spec.Endpoint}
    (h : generated d target disk = .ok g) (hes : d.endpoints.2 = .ok es) {e : Spec.Endpoint} (he : e ∈ es) {file : Text}
    (hfile : Route.endpointFile d.tag e.path = .ok file) : ∃ r ∈ g.2, r.path = some file := by
  obtain ⟨es', rs, -, hes', hrs, hchecked⟩ := generated_eq_ok.1 h
  obtain rfl := Except.ok.inj (hes.symm.trans hes')
  obtain ⟨r, hr, hmerged⟩ := exists_of_forall₂ (mapM_eq_ok.1 hrs).flip he
  unfold mergedEndpoint at hmerged
  rw [hfile] at hmerged
  have hpath := path_of_reported hmerged
  unfold checkedFiles at hchecked
  obtain ⟨faults, -, hend⟩ := bind_eq_ok.1 hchecked
  split at hend
  · cases hend
  · rw [← Except.ok.inj hend]
    exact ⟨_, List.mem_map_of_mem hr, (path_inLightOf faults r).trans hpath⟩

theorem mem_missingFiles {staged : List Text} (h : missingFiles target tag disk = .ok staged) {t : Text} (ht : t ∈ staged) :
    ∃ f ∈ skeletonFiles, t = pathFor tag f.1 := by
  have hpath : ∀ {path : Text} {o : Option Text}, stagedFile target path disk = .ok o → ∀ t ∈ o, t = path := by
    intro path o ho t ht
    unfold stagedFile at ho
    obtain ⟨held, -, hend⟩ := bind_eq_ok.1 ho
    cases hend
    cases held with
    | true => cases ht
    | false =>
      cases ht
      rfl
  unfold missingFiles at h
  obtain ⟨a, ha, h₁⟩ := bind_eq_ok.1 h
  obtain ⟨b, hb, h₂⟩ := bind_eq_ok.1 h₁
  cases h₂
  simp only [List.mem_filterMap, List.mem_cons, List.not_mem_nil, or_false, id_eq, exists_eq_or_imp, exists_eq_left] at ht
  obtain rfl | rfl := ht
  · exact ⟨_, List.mem_cons_self, (hpath ha _ rfl).trans (pathFor_index tag).symm⟩
  · exact ⟨_, List.mem_cons_of_mem _ List.mem_cons_self, (hpath hb _ rfl).trans (pathFor_bootstrap tag).symm⟩

/-- The base document has the place of no file of the skeleton. -/
theorem place_baseDocument_ne (htag : CodePoint.scalar '.' ∉ tag) : ∀ f ∈ skeletonFiles,
    disk.place (target.child (baseDocumentFile tag)) ≠ disk.place (target.child (pathFor tag f.1)) := by
  unfold skeletonFiles
  simp only [List.mem_cons, List.not_mem_nil, or_false, forall_eq_or_imp, forall_eq]
  rw [place_baseDocument htag]
  refine ⟨?_, ?_⟩
  · rw [pathFor_index, place_versionFile htag (by decide)]
    intro heq
    rw [List.append_cancel_left_eq] at heq
    exact absurd heq (by decide)
  · rw [pathFor_bootstrap, place_bootstrap, List.append_assoc]
    intro heq
    rw [List.append_cancel_left_eq] at heq
    unfold versionNames at heq
    simp only [List.cons_append, List.nil_append, List.cons.injEq] at heq
    exact absurd heq.2.1 (by decide)

theorem textOf_ok {p q : Text} {x : Option Item} {v : Option Text} (h : textOf p x = .ok v) : textOf q x = .ok v := by
  cases x with
  | none => exact h
  | some i =>
    cases i with
    | folder => cases h
    | file bytes => exact h

/-- Two straight paths to one place read alike on a tree. -/
theorem readText?_same_place {p q : Path} {v w : Option Text} (htree : disk.IsTree) (hsp : disk.straight p = true)
    (hsq : disk.straight q = true) (hp : p.check = .ok ()) (hplace : disk.place q = disk.place p)
    (hhere : disk'.here = disk.here) (hfolders : ∀ m, disk.item? m = some .folder → disk'.item? m = some .folder)
    (h : disk.readText? p = .ok v) (hq : disk'.readText? q = .ok w) : ∃ w, disk.readText? q = .ok w := by
  obtain ⟨x, hx, hv⟩ := at?_of_readText? h
  obtain ⟨y', hy', -⟩ := at?_of_readText? hq
  obtain ⟨y, hy⟩ := at?_before hhere hfolders hy'
  rw [readText?_of_at? hy]
  cases hc : q.check with
  | error f =>
    rw [at?_of_check hc] at hy
    cases hy
    exact ⟨none, rfl⟩
  | ok u =>
    rw [at?_place htree hsq hc hy, hplace, ← at?_place htree hsp hp hx]
    exact ⟨v, textOf_ok hv⟩

/-- **What a real run reports, a dry run reports**, on a tree, by straight paths. -/
theorem preview_of_generate {d : Spec.ApiDocument} {r : Report} (htree : disk.IsTree) (htarget : disk.straight s.target = true)
    (hbootstrap : disk.straight s.bootstrapPath = true) (h : (generate d s false).Takes disk r disk')
    (hspelled : ∀ t ∈ r.staged, disk.place (s.target.child t) = disk.place s.bootstrapPath → t = s.bootstrapFile)
    (hapart : r.bootstrap.isSome = true → ∀ e ∈ r.endpoints, ∀ file, e.path = some file →
      disk.place (s.target.child file) ≠ disk.place s.bootstrapPath) :
    ∃ r', preview d s disk = .ok r' ∧ foretold r' = foretold r := by
  obtain ⟨r₀, disk₁, hr₀, hsame⟩ := generate_report h
  obtain ⟨⟨staged, b⟩, g, hbegin, hg, rfl⟩ := prepare_takes_steps hr₀
  unfold foretold reportOf at hsame
  simp only [Prod.mk.injEq] at hsame
  obtain ⟨hsametag, hsamestaged, hsamebootstrap, ⟨hsamepath, hsamecontent⟩, hsameendpoints⟩ := hsame
  rw [hsamestaged] at hspelled
  rw [hsameendpoints] at hapart
  have hsome : r.bootstrap.isSome = b.isSome := by
    have := congrArg Option.isSome hsamebootstrap
    simpa using this
  rw [hsome] at hapart
  unfold begin at hbegin
  obtain ⟨staged', disk₂, hstage, hbegin₁⟩ := Edit.Takes.of_bind hbegin
  obtain ⟨b', disk₃, hregister, hbegin₂⟩ := Edit.Takes.of_bind hbegin₁
  obtain ⟨heq, rfl⟩ := hbegin₂.eq_of_pure
  obtain ⟨rfl, rfl⟩ := Prod.mk.inj heq
  have htag := not_mem_tag d
  obtain ⟨hmissing, hkeeps, hfresh⟩ := stageSkeleton_before htree htarget htag hstage
  obtain ⟨hregistered, hwrite⟩ := registerVersion_takes hregister
  obtain ⟨previous, hpreview, hprevious⟩ := registered_before htree hbootstrap hkeeps hfresh hspelled hregistered
  -- All that a real run has changed by then: the staged files, and the bootstrap module when it was patched.
  have hall : KeepsAt (fun m => (∀ t ∈ staged, m ≠ disk.place (s.target.child t)) ∧
      (b.isSome = true → m ≠ disk.place s.bootstrapPath)) disk disk₁ ∧ (b.isSome = true → s.bootstrapPath.check = .ok ()) := by
    obtain ⟨rfl, rfl⟩ | ⟨f, rfl, hwrite⟩ := hwrite
    · exact ⟨hkeeps.mono fun m hm => hm.1, by simp⟩
    · obtain ⟨-, -, hfind, -, -⟩ := writeAtomically_takes hwrite
      refine ⟨(hkeeps.mono fun m hm => hm.1).trans ((writeAtomically_keepsAt hwrite).mono fun m hm => ?_),
        fun _ => (find_ok hfind).1⟩
      rw [place_congr hkeeps.here]
      exact hm.2 rfl
  obtain ⟨hall, hcheck⟩ := hall
  have hskeleton : ∀ {m : Location}, (∀ f ∈ skeletonFiles, m ≠ disk.place (s.target.child (pathFor d.tag f.1))) →
      ∀ t ∈ staged, m ≠ disk.place (s.target.child t) := fun hm t ht => by
    obtain ⟨f, hf, rfl⟩ := mem_missingFiles hmissing ht
    exact hm f hf
  have hstraight : disk.straight (s.target.child (baseDocumentFile d.tag)) = true := by
    rw [baseDocumentFile_eq]
    exact straight_versionFile htarget htag (by decide)
  obtain ⟨es, rs, hbaseFile, hes, -, -⟩ := generated_eq_ok.1 hg
  obtain ⟨-, -, hbaseRead, -⟩ := baseFile_eq_ok.1 hbaseFile
  have hbase : ∃ v, disk.readText? (s.target.child (baseDocumentFile d.tag)) = .ok v := by
    by_cases hpatched : b.isSome = true ∧ disk.place (s.target.child (baseDocumentFile d.tag)) = disk.place s.bootstrapPath
    · exact readText?_same_place htree hbootstrap hstraight (hcheck hpatched.1) hpatched.2 hall.here hall.folders
        hprevious hbaseRead
    · refine ⟨_, hall.readText? htree hstraight ⟨hskeleton (place_baseDocument_ne htag), fun hb heq => ?_⟩ hbaseRead⟩
      exact hpatched ⟨hb, heq⟩
  obtain ⟨v, hbase⟩ := hbase
  have hmodules : ∀ es, d.endpoints.2 = .ok es → ∀ e ∈ es, ∀ file v, Route.endpointFile d.tag e.path = .ok file →
      disk₁.readText? (s.target.child file) = .ok v → disk.readText? (s.target.child file) = .ok v := by
    intro es hes e he file v hfile hv
    refine hall.readText? htree (straight_endpointFile htarget htag hfile) ⟨hskeleton fun f hf heq => ?_, fun hb => ?_⟩ hv
    · obtain ⟨names, -, -, hplace⟩ : ∃ names, names ≠ [] ∧ Path.up ∉ names ∧
          disk.place (s.target.child file) = disk.place (modulesFolder s.target d.tag) ++ names := place_endpointFile hfile
      exact skeleton_not_below htag f hf (heq ▸ hplace ▸ List.prefix_append _ _)
    · obtain ⟨e', he', hpath⟩ := path_of_generated hg hes he hfile
      exact hapart hb e' he' file hpath
  refine ⟨_, bind_eq_ok.2 ⟨staged, hmissing, bind_eq_ok.2 ⟨_, hpreview, bind_eq_ok.2
    ⟨_, generated_before hbase hmodules hg, rfl⟩⟩⟩, ?_⟩
  unfold foretold reportOf
  rw [hsametag, hsamestaged, hsamebootstrap, hsamepath, hsamecontent, hsameendpoints]
  cases b <;> rfl

/-- **A dry run changes nothing, and foretells the report of a real run**: on a tree, when the paths to
the app and to its bootstrap module never leave a folder that is missing, a staged file that has the
place of the bootstrap module is spelled as it, and no route module has that place when a version is
registered there. -/
theorem generate_dryRun (d : Spec.ApiDocument) (s : Settings) (disk : Disk) :
    ((generate d s true).perform disk).1 = disk ∧
      (disk.IsTree → disk.straight s.target = true → disk.straight s.bootstrapPath = true →
        ∀ disk' r logs, (generate d s false).perform disk = (disk', .ok r, logs) →
          (∀ t ∈ r.staged, disk.place (s.target.child t) = disk.place s.bootstrapPath → t = s.bootstrapFile) →
          (r.bootstrap.isSome = true → ∀ e ∈ r.endpoints, ∀ file, e.path = some file →
            disk.place (s.target.child file) ≠ disk.place s.bootstrapPath) →
          ∃ r' logs', (generate d s true).perform disk = (disk, .ok r', logs') ∧ foretold r' = foretold r) := by
  constructor
  · have hlooks := (generate_dryRun_looks d s).moves (R := Eq) disk []
    rw [Edit.perform_eq]
    exact hlooks.symm
  · intro htree htarget hbootstrap disk' r logs h hspelled hapart
    obtain ⟨r', hr', hsame⟩ :=
      preview_of_generate htree htarget hbootstrap (Edit.Takes.of_perform h) hspelled hapart
    obtain ⟨hdisk, hresult⟩ := (generate_dryRun_looks d s).steady.takes_iff.1
      (((generate_dryRun_looks d s).gives hr').takes)
    exact ⟨r', _, Prod.ext hdisk (Prod.ext hresult rfl), hsame⟩

/-- A disk with an app whose version `v1` was staged, but not registered. -/
def unregisteredDisk : Disk where
  items := [(["src"], .folder), (["src", "api"], .folder), (["src", "api", "v1"], .folder),
    (["src", "api", "v1", "index.js"], .file []),
    (["src", "index.js"], .file "function initializeApiVersions() {}\n".toUTF8.toList)]

theorem generate_dryRun_sample : ∃ disk r logs r' logs',
    (generate { paths := [("/a", some [])] } {} false).perform unregisteredDisk = (disk, .ok r, logs) ∧
    r.bootstrap.isSome = true ∧
    (generate { paths := [("/a", some [])] } {} true).perform unregisteredDisk = (unregisteredDisk, .ok r', logs') ∧
    foretold r' = foretold r := by
  have hall := (generate_dryRun { paths := [("/a", some [])] } {} unregisteredDisk).2 (isTree_of_items (by decide +kernel))
    (by decide +kernel) (by decide +kernel)
  generalize hp : (generate { paths := [("/a", some [])] } {} false).perform unregisteredDisk = run at hall
  have hrun : (run.2.1.toOption.any fun r => r.bootstrap.isSome && r.staged.isEmpty &&
      r.endpoints.all fun e => e.path.all fun file =>
        unregisteredDisk.place (Path.child {} file) != unregisteredDisk.place (Path.child {} "src/index.js")) = true := by
    rw [← hp]
    decide +kernel
  obtain ⟨disk, r | r, logs⟩ := run
  · cases hrun
  · simp only [Except.toOption, Option.any_some, Bool.and_eq_true, List.all_eq_true, List.isEmpty_iff] at hrun
    obtain ⟨⟨hbootstrap, hstaged⟩, hplaces⟩ := hrun
    obtain ⟨r', logs', hdry, hsame⟩ := hall disk r logs rfl (by simp [hstaged])
      fun _ e he file hfile => by
        have := hplaces e he
        rw [hfile] at this
        exact bne_iff_ne.1 this
    exact ⟨disk, r, logs, r', logs', rfl, hbootstrap, hdry, hsame⟩

/-! ## A bootstrap module that is staged under another spelling -/

/-- **A version is registered in the bootstrap module that is there**, and the module is written. -/
theorem registerVersion_gives_file {text patched : Text} (staged : List Text)
    (hread : disk.readText? s.bootstrapPath = .ok (some text))
    (hpatched : (patchBootstrap s.wiring tag text (some s.bootstrapFile)).2 = .ok (some patched))
    (hwrite : (writeAtomically s.bootstrapPath patched).Takes disk () disk') :
    (registerVersion s tag false staged).Gives disk (some ⟨s.bootstrapFile, patched, some text⟩) disk' := by
  have hfound : bootstrapOf s tag staged disk = .ok (some text, some text) := bootstrapOf_of_read hread
  unfold registerVersion
  refine ((bootstrapText_looks s tag staged).gives hfound).bind ?_
  refine ((Edit.Looks.ofLogged _).gives hpatched).bind ?_
  exact ((writeAtomically_steady _ _).gives hwrite).bind (.pure _ _)

/-- A disk with an app whose version `v1` was staged, without its bootstrap module. -/
def unstartedDisk : Disk where
  items := [(["src"], .folder), (["src", "api"], .folder), (["src", "api", "v1"], .folder),
    (["src", "api", "v1", "index.js"], .file [])]

/-- The settings of an app whose bootstrap module is spelled otherwise than the skeleton spells it. -/
def respelled : Settings where
  bootstrapFile := "./src/index.js"

/-- The bootstrap module of the skeleton, with version `v1` registered. -/
def startedLines : List String :=
  bootstrapLines.take 1 ++ ["import v1 from './api/v1';"] ++ (bootstrapLines.drop 1).dropLast ++ ["    v1(app);", "\x7d"]

/-- A real run registers in the bootstrap module that it stages, however that is spelled.  The module is not read
back byte by byte here: a staged file reads as the skeleton has it. -/
theorem generate_unstarted : ∃ disk r logs,
    (generate { paths := [("/a", some [])] } respelled false).perform unstartedDisk = (disk, .ok r, logs) ∧
      r.bootstrap.isSome = true := by
  have hrest : ((writeAtomically respelled.bootstrapPath (textOfLines startedLines) >>= fun _ =>
      proceed { paths := [("/a", some [])] } respelled (["src/index.js"],
        some ⟨respelled.bootstrapFile, textOfLines startedLines, some (textOfLines bootstrapLines)⟩)).perform
      ((stageSkeleton {} "v1" false).perform unstartedDisk).1).2.1.toOption.any (·.bootstrap.isSome) = true := by
    decide +kernel
  generalize hp : (stageSkeleton {} "v1" false).perform unstartedDisk = run at hrest
  have hresult : run.2.1 = .ok [Text.ofString "src/index.js"] ∧
      run.1.find respelled.bootstrapPath = .ok (unstartedDisk.place (Path.child {} "src/index.js")) := by
    rw [← hp]
    decide +kernel
  obtain ⟨disk₁, result, logs₁⟩ := run
  obtain ⟨rfl, hfind⟩ := hresult
  have hstage := Edit.Takes.of_perform hp
  have hfresh := (stageSkeleton_before (isTree_of_items (by decide)) (by decide) (by decide) hstage).2.2 _ List.mem_cons_self
  have hread : disk₁.readText? respelled.bootstrapPath = .ok (some (textOfLines bootstrapLines)) := by
    rw [readText?_of_at? (at?_of_locate (find_ok hfind).1 (find_ok hfind).2), ← skeletonText?_bootstrap "v1"]
    exact hfresh.reads _
  have hpatched : (patchBootstrap respelled.wiring "v1" (textOfLines bootstrapLines) (some respelled.bootstrapFile)).2 =
      .ok (some (textOfLines startedLines)) := by
    decide +kernel
  generalize hq : Edit.perform _ disk₁ = rest at hrest
  obtain ⟨disk₂, x | r, logs₂⟩ := rest
  · cases hrest
  · obtain ⟨u, disk₃, hwrite, hproceed⟩ := Edit.Takes.of_bind (Edit.Takes.of_perform hq)
    have hgives : (generate { paths := [("/a", some [])] } respelled false).Gives unstartedDisk r disk₂ := by
      rw [generate_eq_staged]
      exact ((stageSkeleton_steady _ _ _).gives hstage).bind
        ((registerVersion_gives_file _ hread hpatched hwrite).bind ((proceed_steady _ _ _).gives hproceed))
    obtain ⟨logs, h⟩ := hgives.perform
    exact ⟨disk₂, r, logs, h, hrest⟩

/-- A staged bootstrap module that is spelled otherwise is registered in by a real run only. -/
theorem generate_dryRun_misses : ¬ ∀ (d : Spec.ApiDocument) (s : Settings) (disk disk' : Disk) (r : Report)
    (logs : List Record), disk.IsTree → (generate d s false).perform disk = (disk', .ok r, logs) →
      ∃ r', ((generate d s true).perform disk).2.1 = .ok r' ∧ r'.bootstrap.isSome = r.bootstrap.isSome := by
  intro hall
  obtain ⟨disk, r, logs, hrun, hregistered⟩ := generate_unstarted
  obtain ⟨r', hr', hsame⟩ := hall _ _ _ _ _ _ (isTree_of_items (by decide)) hrun
  have hdry : ((((generate { paths := [("/a", some [])] } respelled true).perform unstartedDisk).2.1).toOption.all
      fun r => r.bootstrap.isNone) = true := by
    decide +kernel
  rw [hr', Except.toOption, Option.all_some, ← Option.not_isSome, hsame, hregistered] at hdry
  cases hdry

end ApiRoutes.Project
