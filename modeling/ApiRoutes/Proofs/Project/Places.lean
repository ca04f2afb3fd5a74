import ApiRoutes.Project.Generation
import ApiRoutes.Proofs.Disk.Writing
import Mathlib.Tactic.SplitIfs
/-!
# The places of generated files

The names that a text spells between slashes (`namesOf`), and where the files of an app are, by the
place of its folder: a tag has no point in it and the path of a module no segment that leads
elsewhere, so these files are where their names say (`place_versionFile`, `place_endpointFile`).
-/
namespace ApiRoutes.Project

open Disk
open Text (pieces_of_not_any pieces_append pieces_ne_nil pieces_cons_of_not pieces_append_sep)

/-! ## Names between slashes -/

theorem mem_of_mem_pieces {p : CodePoint → Bool} {t q : Text} {c : CodePoint} (hq : q ∈ Text.pieces p t)
    (hc : c ∈ q) : c ∈ t := by
  induction t generalizing q with
  | nil =>
    simp only [Text.pieces, List.mem_singleton] at hq
    simp [hq] at hc
  | cons b r ih =>
    by_cases hb : p b
    · simp only [Text.pieces, hb, if_true, List.mem_cons] at hq
      obtain rfl | hq := hq
      · simp at hc
      · exact List.mem_cons_of_mem _ (ih hq hc)
    · obtain ⟨l, ls, hr, hbr⟩ := pieces_cons_of_not (eq_false_of_ne_true hb) r
      rw [hbr, List.mem_cons] at hq
      obtain rfl | hq := hq
      · obtain rfl | hc := List.mem_cons.1 hc
        · exact List.mem_cons_self
        · exact List.mem_cons_of_mem _ (ih (hr ▸ List.mem_cons_self) hc)
      · exact List.mem_cons_of_mem _ (ih (hr ▸ List.mem_cons_of_mem _ hq) hc)

/-- A piece that a further separator does not part is also a piece between both kinds: the first one is
the first one, and a later one a later one. -/
theorem pieces_refine {p p' : CodePoint → Bool} (hp : ∀ c, p c = true → p' c = true) (t : Text) :
    (∀ l ls, Text.pieces p t = l :: ls → (∀ c ∈ l, p' c = false) → (Text.pieces p' t).head? = some l) ∧
      ∀ q ∈ (Text.pieces p t).tail, (∀ c ∈ q, p' c = false) → q ∈ (Text.pieces p' t).tail := by
  induction t with
  | nil => simp [Text.pieces]
  | cons c r ih =>
    by_cases hc : p c
    · simp only [Text.pieces, hc, hp c hc, if_true]
      refine ⟨fun l ls h _ => by rw [← (List.cons.inj h).1]; rfl, fun q hq hfree => ?_⟩
      obtain ⟨l, ls, hr⟩ := List.exists_cons_of_ne_nil (pieces_ne_nil p r)
      rw [List.tail_cons, hr, List.mem_cons] at hq
      rw [List.tail_cons]
      obtain rfl | hq := hq
      · exact List.mem_of_mem_head? (ih.1 q ls hr hfree)
      · exact List.mem_of_mem_tail (ih.2 q (by rw [hr]; exact hq) hfree)
    · obtain ⟨l, ls, hr, hcr⟩ := pieces_cons_of_not (eq_false_of_ne_true hc) r
      rw [hcr]
      refine ⟨fun m ms h hfree => ?_, fun q hq hfree => ?_⟩
      · obtain ⟨rfl, rfl⟩ := List.cons.inj h
        simp only [List.mem_cons, forall_eq_or_imp] at hfree
        obtain ⟨l', ls', hr', hcr'⟩ := pieces_cons_of_not hfree.1 r
        have hhead := ih.1 l ls hr hfree.2
        rw [hr', List.head?_cons, Option.some.injEq] at hhead
        rw [hcr', hhead, List.head?_cons]
      · have hlater := ih.2 q (by rw [hr]; exact hq) hfree
        by_cases hc' : p' c
        · simp only [Text.pieces, hc', if_true, List.tail_cons]
          exact List.mem_of_mem_tail hlater
        · obtain ⟨l', ls', hr', hcr'⟩ := pieces_cons_of_not (eq_false_of_ne_true hc') r
          rw [hr'] at hlater
          rw [hcr']
          exact hlater

theorem mem_pieces_refine {p p' : CodePoint → Bool} (hp : ∀ c, p c = true → p' c = true) {t q : Text}
    (hq : q ∈ Text.pieces p t) (hfree : ∀ c ∈ q, p' c = false) : q ∈ Text.pieces p' t := by
  obtain ⟨l, ls, h⟩ := List.exists_cons_of_ne_nil (pieces_ne_nil p t)
  rw [h, List.mem_cons] at hq
  obtain rfl | hq := hq
  · exact List.mem_of_mem_head? ((pieces_refine hp t).1 q ls h hfree)
  · exact List.mem_of_mem_tail ((pieces_refine hp t).2 q (by rw [h]; exact hq) hfree)

/-- Code points that part at either end only make empty pieces. -/
theorem any_pieces_dropWhile {p q : CodePoint → Bool} (hp : ∀ c, q c = true → p c = true) {f : Text → Bool}
    (hf : f [] = false) (t : Text) : (Text.pieces p (t.dropWhile q)).any f = (Text.pieces p t).any f := by
  induction t with
  | nil => rfl
  | cons c r ih =>
    by_cases hc : q c
    · rw [List.dropWhile_cons_of_pos hc, ih]
      simp [Text.pieces, hp c hc, hf]
    · rw [List.dropWhile_cons_of_neg hc]

theorem any_pieces_append_seps {p : CodePoint → Bool} {f : Text → Bool} (hf : f [] = false) (t : Text) :
    ∀ {s : Text}, (∀ c ∈ s, p c = true) → (Text.pieces p (t ++ s)).any f = (Text.pieces p t).any f
  | [], _ => by rw [List.append_nil]
  | c :: s, h => by
    have hnone : (Text.pieces p s).any f = false := by
      have hs := any_pieces_append_seps hf [] fun b hb => h b (List.mem_cons_of_mem c hb)
      rw [List.nil_append] at hs
      rw [hs]
      simp [Text.pieces, hf]
    rw [pieces_append_sep (h c List.mem_cons_self), List.any_append, hnone, Bool.or_false]

theorem any_pieces_trim {p q : CodePoint → Bool} (hp : ∀ c, q c = true → p c = true) {f : Text → Bool}
    (hf : f [] = false) (t : Text) : (Text.pieces p (Text.trim q t)).any f = (Text.pieces p t).any f := by
  have hsplit : t.dropWhile q = Text.trim q t ++ ((t.dropWhile q).reverse.takeWhile q).reverse := by
    unfold Text.trim
    rw [← List.reverse_append, List.takeWhile_append_dropWhile, List.reverse_reverse]
  have hseps : ∀ c ∈ ((t.dropWhile q).reverse.takeWhile q).reverse, p c = true := fun c hc =>
    hp c (List.all_eq_true.1 List.all_takeWhile c (List.mem_reverse.1 hc))
  rw [← any_pieces_dropWhile hp hf t, hsplit, any_pieces_append_seps hf _ hseps]

/-- The names that a text spells between slashes. -/
def namesOf (t : Text) : List Text := (Text.splitAt '/' t).filter Path.leads

theorem namesOf_append_slash (s t : Text) : namesOf (s ++ .scalar '/' :: t) = namesOf s ++ namesOf t := by
  unfold namesOf Text.splitAt
  rw [pieces_append_sep (by decide), List.filter_append]

theorem up_not_mem_namesOf {t : Text} (h : CodePoint.scalar '.' ∉ t) : Path.up ∉ namesOf t := fun hup =>
  h (mem_of_mem_pieces (List.mem_filter.1 hup).1 (by decide))

/-! ## Places below a folder -/

theorem rootOf_cons {c : CodePoint} {r : Text} (h : c ≠ .scalar '/') : Path.rootOf (c :: r) = [] := by
  have hc : (c == CodePoint.scalar '/') = false := by simpa using h
  unfold Path.rootOf
  rw [List.takeWhile_cons, hc]
  rfl

theorem place_child_names {d : Disk} {target : Path} {t : Text} (hroot : Path.rootOf t = []) :
    d.place (target.child t) = (namesOf t).foldl further (d.place target) := by
  unfold Path.child Path.join
  rw [show (Path.ofText t).root = [] from hroot, if_pos (by rfl)]
  unfold Disk.place
  rw [List.foldl_append]
  rfl

/-- A text that does not go up leads below the folder. -/
theorem place_child_append {d : Disk} {target : Path} {t : Text} (hroot : Path.rootOf t = [])
    (hup : Path.up ∉ namesOf t) : d.place (target.child t) = d.place target ++ namesOf t := by
  rw [place_child_names hroot, foldl_further hup]

/-! ## The files of a version -/

theorem not_mem_versionTag (v : Text) : CodePoint.scalar '.' ∉ Spec.versionTag v := by
  unfold Spec.versionTag Text.before
  intro h
  obtain h | h := List.mem_append.1 h
  · revert h
    decide
  · have hkept := List.all_eq_true.1 List.all_takeWhile _ h
    revert hkept
    decide

theorem not_mem_tag (d : Spec.ApiDocument) : CodePoint.scalar '.' ∉ d.tag := by
  unfold Spec.ApiDocument.tag
  split <;> exact not_mem_versionTag _

/-- The names of the folder of a version, from the folder of the app. -/
def versionNames (tag : Text) : List Text := [("src" : Text), ("api" : Text)] ++ namesOf tag

theorem up_not_mem_versionNames {tag : Text} (h : CodePoint.scalar '.' ∉ tag) : Path.up ∉ versionNames tag := by
  unfold versionNames
  rw [List.mem_append, not_or]
  exact ⟨by decide, up_not_mem_namesOf h⟩

/-- The path of a file of a version. -/
def versionFile (tag t : Text) : Text := Text.ofString "src/api/" ++ (tag ++ .scalar '/' :: t)

theorem rootOf_versionFile (tag t : Text) : Path.rootOf (versionFile tag t) = [] := rootOf_cons (by decide)

theorem namesOf_versionFile (tag t : Text) : namesOf (versionFile tag t) = versionNames tag ++ namesOf t := by
  have hstart : versionFile tag t = Text.ofString "src/api" ++ .scalar '/' :: (tag ++ .scalar '/' :: t) := rfl
  have hnames : namesOf (Text.ofString "src/api") = [("src" : Text), ("api" : Text)] := by decide
  rw [hstart, namesOf_append_slash, namesOf_append_slash, hnames, versionNames, List.append_assoc]

/-- **A file of a version is where its names say.** -/
theorem place_versionFile {d : Disk} {target : Path} {tag t : Text} (htag : CodePoint.scalar '.' ∉ tag)
    (ht : Path.up ∉ namesOf t) :
    d.place (target.child (versionFile tag t)) = d.place target ++ versionNames tag ++ namesOf t := by
  have hup : Path.up ∉ namesOf (versionFile tag t) := by
    rw [namesOf_versionFile, List.mem_append, not_or]
    exact ⟨up_not_mem_versionNames htag, ht⟩
  rw [place_child_append (rootOf_versionFile tag t) hup, namesOf_versionFile, List.append_assoc]

theorem baseDocumentFile_eq (tag : Text) : baseDocumentFile tag = versionFile tag "base-api-doc.yml" := by
  unfold baseDocumentFile versionFile
  rw [List.append_assoc]
  rfl

theorem place_baseDocument {d : Disk} {target : Path} {tag : Text} (htag : CodePoint.scalar '.' ∉ tag) :
    d.place (target.child (baseDocumentFile tag)) = d.place target ++ versionNames tag ++ [("base-api-doc.yml" : Text)] := by
  rw [baseDocumentFile_eq, place_versionFile htag (by decide)]
  rfl

theorem pathFor_index (tag : Text) : pathFor tag "src/api/__version__/index.js" = versionFile tag "index.js" := by
  have h : ∀ n : Text, Text.replaceFrom versionPlaceholder n 0 (Text.ofString "src/api/__version__/index.js") =
      Text.ofString "src/api/" ++ (n ++ Text.ofString "/index.js") := fun n => rfl
  exact h tag

theorem pathFor_bootstrap (tag : Text) : pathFor tag "src/index.js" = Text.ofString "src/index.js" := rfl

/-- The folder of the modules of a version. -/
def modulesFolder (target : Path) (tag : Text) : Path := target.child (versionFile tag "paths")

theorem place_modulesFolder {d : Disk} {target : Path} {tag : Text} (htag : CodePoint.scalar '.' ∉ tag) :
    d.place (modulesFolder target tag) = d.place target ++ versionNames tag ++ [("paths" : Text)] := by
  rw [modulesFolder, place_versionFile htag (by decide)]
  rfl

theorem place_bootstrap (d : Disk) (target : Path) :
    d.place (target.child "src/index.js") = d.place target ++ [("src" : Text), ("index.js" : Text)] := by
  have hnames : namesOf "src/index.js" = [("src" : Text), ("index.js" : Text)] := by decide
  have hroot : Path.rootOf "src/index.js" = [] := rootOf_cons (by decide)
  rw [place_child_append hroot (by decide), hnames]

/-- A file beside the folder of the modules is not below it. -/
theorem not_below_modulesFolder {d : Disk} {target : Path} {tag : Text} (htag : CodePoint.scalar '.' ∉ tag)
    {name : Text} (hname : name ≠ "paths") :
    ¬ d.place (modulesFolder target tag) <+: d.place target ++ versionNames tag ++ [name] := by
  rw [place_modulesFolder htag, List.prefix_append_right_inj, List.cons_prefix_cons]
  exact fun h => hname h.1.symm

/-- **The files of the skeleton are not below the folder of the modules.** -/
theorem skeleton_not_below {d : Disk} {target : Path} {tag : Text} (htag : CodePoint.scalar '.' ∉ tag) :
    ∀ f ∈ skeletonFiles, ¬ d.place (modulesFolder target tag) <+: d.place (target.child (pathFor tag f.1)) := by
  unfold skeletonFiles
  simp only [List.mem_cons, List.not_mem_nil, or_false, forall_eq_or_imp, forall_eq]
  refine ⟨?_, ?_⟩
  · rw [pathFor_index, place_versionFile htag (by decide)]
    exact not_below_modulesFolder htag (by decide)
  · rw [pathFor_bootstrap, place_bootstrap, place_modulesFolder htag, List.append_assoc, List.prefix_append_right_inj]
    intro h
    simp only [versionNames, List.cons_append, List.nil_append, List.cons_prefix_cons] at h
    exact absurd h.2.1 (by decide)

theorem baseDocument_not_below {d : Disk} {target : Path} {tag : Text} (htag : CodePoint.scalar '.' ∉ tag) :
    ¬ d.place (modulesFolder target tag) <+: d.place (target.child (baseDocumentFile tag)) := by
  rw [place_baseDocument htag]
  exact not_below_modulesFolder htag (by decide)

/-- The path of the module of a name. -/
def moduleFile (tag name : Text) : Text :=
  versionFile tag (Text.ofString "paths" ++ .scalar '/' :: (name ++ Text.ofString ".js"))

/-- The path of a module, by the name that the path of its endpoint gives it. -/
theorem endpointFile_ok {tag path file : Text} (h : Route.endpointFile tag path = .ok file) :
    ∃ name, file = moduleFile tag name ∧ ∀ s ∈ Route.segments name, ¬ Route.isDotSegment s := by
  unfold Route.endpointFile at h
  simp only at h
  split_ifs at h with hdots
  cases h
  have hnone := List.any_eq_false.1 (eq_false_of_ne_true hdots)
  exact ⟨_, by unfold moduleFile versionFile; simp only [List.append_assoc]; rfl, hnone⟩

/-- **A path is refused exactly when a segment of it leads elsewhere.** -/
theorem endpointFile_eq_error {tag path : Text} {f : Failure} : Route.endpointFile tag path = .error f ↔
    f = .dotSegments path ∧ (Route.segments path).any Route.isDotSegment = true := by
  have hslash : ∀ c : CodePoint, (c == .scalar '/') = true → (c == .scalar '/' || c == .scalar '\\') = true :=
    fun c hc => by rw [hc, Bool.true_or]
  have htrim : (Route.segments (Text.trim (· == .scalar '/') path)).any Route.isDotSegment =
      (Route.segments path).any Route.isDotSegment := any_pieces_trim hslash (by decide) path
  unfold Route.endpointFile
  cases hname : Text.trim (· == .scalar '/') path with
  | nil =>
    rw [hname] at htrim
    have hnone : (Route.segments path).any Route.isDotSegment = false := by
      rw [← htrim]
      decide
    have hindex : (Route.segments (Text.ofString "index")).any Route.isDotSegment = false := by decide
    simp [hnone, hindex]
  | cons c r =>
    rw [hname] at htrim
    simp only [htrim]
    constructor
    · intro h
      split_ifs at h with hdots
      cases h
      exact ⟨rfl, hdots⟩
    · rintro ⟨rfl, h⟩
      rw [if_pos h]

/-! ## Modules -/

section Module

variable {p : CodePoint → Bool} (hending : ∀ c ∈ Text.ofString ".js", p c = false)

include hending in
/-- A name that leads up is a piece of the path already. -/
theorem up_not_mem_modulePieces {name : Text} (h : Path.up ∉ Text.pieces p name) :
    Path.up ∉ Text.pieces p (name ++ Text.ofString ".js") := by
  intro hup
  obtain ⟨init, x, hname, hpieces⟩ := pieces_append hending name
  rw [hpieces, List.mem_append, List.mem_singleton] at hup
  obtain hup | hup := hup
  · exact h (by rw [hname]; exact List.mem_append_left _ hup)
  · have hlength := congrArg List.length hup
    rw [List.length_append] at hlength
    have hup : Path.up.length = 2 := rfl
    have hjs : (Text.ofString ".js").length = 3 := rfl
    omega

include hending in
theorem modulePieces_lead (name : Text) : (Text.pieces p (name ++ Text.ofString ".js")).filter Path.leads ≠ [] := by
  obtain ⟨init, x, -, hpieces⟩ := pieces_append hending name
  have hleads : Path.leads (x ++ Text.ofString ".js") = true := by
    cases x with
    | nil => decide
    | cons c r => cases r <;> simp [Path.leads, Text.ofString]
  rw [hpieces, List.filter_append]
  simp [hleads]

end Module

/-- A name between slashes that leads up is a segment that leads elsewhere. -/
theorem up_not_mem_moduleNames {name : Text} (h : ∀ s ∈ Route.segments name, ¬ Route.isDotSegment s) :
    Path.up ∉ namesOf (name ++ Text.ofString ".js") := fun hup =>
  up_not_mem_modulePieces (by decide) (fun hpiece => h _
    (mem_pieces_refine (fun c hc => by simp only [hc, Bool.true_or]) hpiece (by decide)) (by decide)) (List.mem_filter.1 hup).1

theorem namesOf_module (name : Text) :
    namesOf (Text.ofString "paths" ++ .scalar '/' :: (name ++ Text.ofString ".js")) =
      [("paths" : Text)] ++ namesOf (name ++ Text.ofString ".js") := by
  rw [namesOf_append_slash]
  rfl

theorem moduleNames_ne_nil (name : Text) : namesOf (name ++ Text.ofString ".js") ≠ [] := modulePieces_lead (by decide) name

/-- **A module is below the folder of the modules of its version**, whatever the tag. -/
theorem place_endpointFile {d : Disk} {target : Path} {tag path file : Text} (h : Route.endpointFile tag path = .ok file) :
    ∃ names, names ≠ [] ∧ Path.up ∉ names ∧
      d.place (target.child file) = d.place (modulesFolder target tag) ++ names := by
  obtain ⟨name, rfl, hsegments⟩ := endpointFile_ok h
  have hup := up_not_mem_moduleNames hsegments
  refine ⟨namesOf (name ++ Text.ofString ".js"), moduleNames_ne_nil name, hup, ?_⟩
  rw [moduleFile, modulesFolder, place_child_names (rootOf_versionFile _ _), place_child_names (rootOf_versionFile _ _),
    namesOf_versionFile, namesOf_versionFile, namesOf_module, List.foldl_append, List.foldl_append, List.foldl_append,
    foldl_further hup]
  rfl

/-- The same between slashes of both kinds. -/
theorem segments_endpointFile {tag path file : Text} (h : Route.endpointFile tag path = .ok file) :
    ∃ names, names ≠ [] ∧ Path.up ∉ names ∧ (Route.segments file).filter Path.leads =
      (Route.segments (versionFile tag "paths")).filter Path.leads ++ names := by
  obtain ⟨name, rfl, hsegments⟩ := endpointFile_ok h
  have hup : Path.up ∉ Route.segments (name ++ Text.ofString ".js") :=
    up_not_mem_modulePieces (by decide) fun hpiece => hsegments _ hpiece (by decide)
  refine ⟨(Route.segments (name ++ Text.ofString ".js")).filter Path.leads, modulePieces_lead (by decide) name,
    fun h => hup (List.mem_filter.1 h).1, ?_⟩
  have hfile : moduleFile tag name = versionFile tag "paths" ++ .scalar '/' :: (name ++ Text.ofString ".js") := by
    unfold moduleFile versionFile
    simp only [List.append_assoc, List.cons_append]
  rw [hfile, Route.segments, pieces_append_sep (by decide), List.filter_append]
  rfl

end ApiRoutes.Project
