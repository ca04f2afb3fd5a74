import Mathlib.Data.List.Forall2
import ApiRoutes.Proofs.Outcomes
import ApiRoutes.Spec.Document
/-!
# Documents reduced to one path

A document of which only one path is left (`ApiDocument.only`) is what the reduced tree describes
(`ofTree_only`).  It has the tag and the base document of the whole one, and those of its endpoints that are
under the path (`endpoints_only`).
-/
namespace ApiRoutes.Spec

open Yaml

variable {d : ApiDocument} {path origin : Text} {source : List (Tree × Tree)}

/-! ## The reduced document -/

/-- Does a key of a mapping read as the path? -/
def spells (path : Text) (key : Value) : Bool := (checkText key).toOption == some path

/-- A mapping of paths reduced to one. -/
def onlyValue (path : Text) : Value → Value
  | .map entries => .map (entries.filter fun e => spells path e.1)
  | v => v

/-- The tree of a mapping of paths reduced to one. -/
def onlyItem (path : Text) : Tree → Tree
  | .map number entries => .map number (entries.filter fun e => spells path e.1.erase)
  | .leaf number v => .leaf number (onlyValue path v)
  | t => t

/-- The fields of a document with its paths reduced to one. -/
def onlySource (path : Text) (source : List (Tree × Tree)) : List (Tree × Tree) :=
  source.map fun e => if e.1.erase = .text "paths" then (e.1, onlyItem path e.2) else e

/-- The document reduced to one path. -/
def ApiDocument.only (d : ApiDocument) (path : Text) : ApiDocument where
  info := d.info
  paths := d.paths.filter fun e => e.1 == path
  others := d.others
  source := onlySource path d.source

theorem sameValue_text {v : Value} {t : Text} : v.sameValue (.text t) = true ↔ v = .text t := by
  cases v <;> simp [Value.sameValue, Value.number?]

/-! ## Endpoints -/

theorem path_of_takeEntries : ∀ {items : List (Text × Value)} {e e' : Endpoint},
    (takeEntries e items).2 = .ok e' → e'.path = e.path
  | [], e, e', h => by
    cases h
    rfl
  | (key, value) :: rest, e, e', h => by
    have hrest : ∀ e₁, (takeEntries e₁ rest).2 = .ok e' → e'.path = e₁.path := fun _ h₁ => path_of_takeEntries h₁
    unfold takeEntries at h
    split at h
    · split at h
      · exact (hrest _ h).trans rfl
      · cases h
    · dsimp only at h
      split at h
      · exact (hrest _ h).trans rfl
      · split at h
        · exact (hrest _ h).trans rfl
        · split at h
          · exact (hrest _ h).trans rfl
          · cases h

theorem endpointsOf_eq : ∀ items : List (Text × Option (List (Text × Value))),
    (endpointsOf items).2 = items.mapM fun e => (Endpoint.ofItem e.1 (e.2.getD [])).2
  | [] => rfl
  | (path, item) :: rest => by
    rw [List.mapM_cons, ← endpointsOf_eq rest, endpointsOf]
    rcases Endpoint.ofItem path (item.getD []) with ⟨logs, f | e⟩
    · rfl
    · rcases endpointsOf rest with ⟨more, f | es⟩ <;> rfl

/-- **The endpoints of a reduced document are those under its path.** -/
theorem endpoints_only {es : List Endpoint} (h : d.endpoints.2 = .ok es) :
    (d.only path).endpoints.2 = .ok (es.filter fun e => e.path == path) := by
  unfold ApiDocument.endpoints at h ⊢
  rw [endpointsOf_eq] at h ⊢
  exact mapM_ok_filter (fun e e' he => by rw [(path_of_takeEntries he : e'.path = e.1)]) h

/-- The endpoints of a document have its paths. -/
theorem paths_endpoints {es : List Endpoint} (h : d.endpoints.2 = .ok es) : es.map (·.path) = d.paths.map (·.1) := by
  unfold ApiDocument.endpoints at h
  rw [endpointsOf_eq, mapM_eq_ok] at h
  have hpaths := h.imp fun e e' he => (path_of_takeEntries he : e'.path = e.1).symm
  rw [← List.forall₂_eq_eq_eq, List.forall₂_map_left_iff, List.forall₂_map_right_iff]
  exact hpaths.flip.imp fun _ _ he => he.symm

theorem exists_endpoints_of_only (h : ∀ e ∈ d.paths, ∃ es, (d.only e.1).endpoints.2 = .ok es) :
    ∃ es, d.endpoints.2 = .ok es := by
  unfold ApiDocument.endpoints at h ⊢
  rw [endpointsOf_eq, exists_mapM_ok]
  intro e he
  have he' := h e he
  rw [endpointsOf_eq, exists_mapM_ok] at he'
  exact he' e (List.mem_filter.2 ⟨he, beq_self_eq_true e.1⟩)

/-! ## The base document -/

theorem insert_paths_onlySource (v : Tree) (source : List (Tree × Tree)) :
    Tree.insert (.leaf none "paths") v (onlySource path source) = Tree.insert (.leaf none "paths") v source := by
  have hkey : ∀ e : Tree × Tree, e.1.erase.sameValue (Tree.leaf none (.text "paths")).erase =
      decide (e.1.erase = .text "paths") := fun e => by
    rw [Bool.eq_iff_iff, decide_eq_true_iff]
    exact sameValue_text
  have hfst : ∀ e : Tree × Tree, (if e.1.erase = .text "paths" then (e.1, onlyItem path e.2) else e).1 = e.1 := fun e => by
    split <;> rfl
  unfold Tree.insert onlySource
  simp only [hkey, List.any_map, Function.comp_def, hfst, List.map_map]
  split
  · refine List.map_congr_left fun e _ => ?_
    by_cases he : e.1.erase = .text "paths"
    · simp only [he, decide_true, if_true]
    · simp only [he, decide_false, if_false, Bool.false_eq_true]
  · rename_i hany
    congr 1
    refine (List.map_congr_left fun e he => ?_).trans (List.map_id source)
    simp only [List.any_eq_true, decide_eq_true_iff, not_exists, not_and] at hany
    rw [if_neg (hany e he)]
    rfl

/-- A path item for an interchange format. -/
def itemField (e : Text × Option (List (Text × Value))) : Outcome (Value × Value) := do
  return (Value.text e.1, ← match e.2 with
    | some es => (Value.map (es.map fun e => (.text e.1, e.2))).interchange
    | none => pure .null)

theorem fields_eq_ok {fs : Entries} : d.fields = .ok fs ↔ ∃ paths others info, d.paths.mapM itemField = .ok paths ∧
    (d.others.mapM fun e => do return (Value.text e.1, ← e.2.interchange)) = .ok others ∧
    (Value.map (d.info.map fun e => (.text e.1, e.2))).interchange = .ok info ∧
    fs = (.text "info", info) :: (.text "paths", .map paths) :: others := by
  unfold ApiDocument.fields
  simp only [bind_eq_ok]
  constructor
  · rintro ⟨paths, hpaths, others, hothers, info, hinfo, h⟩
    cases h
    exact ⟨paths, others, info, hpaths, hothers, hinfo, rfl⟩
  · rintro ⟨paths, others, info, hpaths, hothers, hinfo, rfl⟩
    exact ⟨paths, hpaths, others, hothers, info, hinfo, rfl⟩

/-- The paths do not show in the base document. -/
theorem insert_paths_ofEntries (info : Value) (paths paths' : Value) (others : Entries) (v : Tree) :
    Tree.insert (.leaf none "paths") v (Tree.ofEntries ((.text "info", info) :: (.text "paths", paths) :: others)) =
      Tree.insert (.leaf none "paths") v (Tree.ofEntries ((.text "info", info) :: (.text "paths", paths') :: others)) := by
  simp [Tree.ofEntries, Tree.insert, Tree.ofValue, Tree.erase, Value.sameValue]

theorem onlySource_isEmpty (path : Text) (source : List (Tree × Tree)) :
    (onlySource path source).isEmpty = source.isEmpty := by
  cases source <;> rfl

theorem exists_fields_ok : (∃ fs, d.fields = .ok fs) ↔ (∀ e ∈ d.paths, ∃ v, itemField e = .ok v) ∧
    (∃ others, (d.others.mapM fun e => do return (Value.text e.1, ← e.2.interchange) : Outcome Entries) = .ok others) ∧
    ∃ info, (Value.map (d.info.map fun e => (.text e.1, e.2))).interchange = .ok info := by
  simp only [fields_eq_ok, ← exists_mapM_ok (f := itemField)]
  constructor
  · rintro ⟨fs, paths, others, info, hpaths, hothers, hinfo, -⟩
    exact ⟨⟨paths, hpaths⟩, ⟨others, hothers⟩, info, hinfo⟩
  · rintro ⟨⟨paths, hpaths⟩, ⟨others, hothers⟩, info, hinfo⟩
    exact ⟨_, paths, others, info, hpaths, hothers, hinfo, rfl⟩

theorem baseTree_eq_ok {t : Tree} : d.baseTree = .ok t ↔ ∃ fs,
    (if d.source.isEmpty then ∃ es, d.fields = .ok es ∧ fs = Tree.ofEntries es else fs = d.source) ∧
      t = .map none (Tree.insert (.leaf none "paths") (.map none []) fs) := by
  unfold ApiDocument.baseTree
  dsimp only
  split
  · rw [bind_eq_ok]
    refine exists_congr fun fs => and_congr ?_ ⟨fun h => (Except.ok.inj h).symm, fun h => h ▸ rfl⟩
    cases d.fields with
    | error f => simp [Functor.map, Except.map]
    | ok es => simp [Functor.map, Except.map, eq_comm]
  · rw [bind_eq_ok]
    exact exists_congr fun fs => and_congr ⟨fun h => (Except.ok.inj h).symm, fun h => h ▸ rfl⟩
      ⟨fun h => (Except.ok.inj h).symm, fun h => h ▸ rfl⟩

/-- **A reduced document has the base document of the whole one.** -/
theorem baseTree_only {t : Tree} (h : d.baseTree = .ok t) : (d.only path).baseTree = .ok t := by
  obtain ⟨fs, hfs, rfl⟩ := baseTree_eq_ok.1 h
  rw [baseTree_eq_ok, show (d.only path).source = onlySource path d.source from rfl, onlySource_isEmpty]
  split at hfs
  · obtain ⟨es, hes, rfl⟩ := hfs
    obtain ⟨paths, others, info, -, hothers, hinfo, rfl⟩ := fields_eq_ok.1 hes
    obtain ⟨hitems, -, -⟩ := exists_fields_ok.1 ⟨_, hes⟩
    obtain ⟨paths', hpaths'⟩ : ∃ paths', (d.only path).paths.mapM itemField = .ok paths' :=
      exists_mapM_ok.2 fun e he => hitems e (List.mem_filter.1 he).1
    refine ⟨_, ?_, congrArg (Yaml.Tree.map none) (insert_paths_ofEntries info (.map paths) (.map paths') others _)⟩
    rw [if_pos ‹_›]
    exact ⟨_, fields_eq_ok.2 ⟨paths', others, info, hpaths', hothers, hinfo, rfl⟩, rfl⟩
  · subst hfs
    refine ⟨onlySource path d.source, ?_, congrArg (Yaml.Tree.map none) (insert_paths_onlySource _ _).symm⟩
    rw [if_neg ‹_›]

theorem exists_baseTree_of_only (hpaths : d.paths ≠ []) (h : ∀ e ∈ d.paths, ∃ t, (d.only e.1).baseTree = .ok t) :
    ∃ t, d.baseTree = .ok t := by
  simp only [baseTree_eq_ok]
  by_cases hempty : d.source.isEmpty = true
  · have hfields : ∀ e ∈ d.paths, ∃ fs, (d.only e.1).fields = .ok fs := fun e he => by
      obtain ⟨t, ht⟩ := h e he
      obtain ⟨fs, hfs, -⟩ := baseTree_eq_ok.1 ht
      rw [show (d.only e.1).source = onlySource e.1 d.source from rfl, onlySource_isEmpty, if_pos hempty] at hfs
      obtain ⟨es, hes, -⟩ := hfs
      exact ⟨es, hes⟩
    obtain ⟨e, he⟩ := List.exists_mem_of_ne_nil _ hpaths
    obtain ⟨-, hothers, hinfo⟩ := exists_fields_ok.1 (hfields e he)
    obtain ⟨fs, hfs⟩ : ∃ fs, d.fields = .ok fs := exists_fields_ok.2 ⟨fun e he =>
      (exists_fields_ok.1 (hfields e he)).1 e (List.mem_filter.2 ⟨he, beq_self_eq_true e.1⟩), hothers, hinfo⟩
    exact ⟨_, _, by rw [if_pos hempty]; exact ⟨fs, hfs, rfl⟩, rfl⟩
  · exact ⟨_, _, by rw [if_neg hempty], rfl⟩

/-! ## Checks -/

theorem both_eq_ok {α β : Type} {a : Checked α} {b : Checked β} {x : α × β} :
    both a b = .ok x ↔ a = .ok x.1 ∧ b = .ok x.2 := by
  obtain ⟨x, y⟩ := x
  cases a <;> cases b <;> simp [both]

theorem within_eq_ok {α : Type} {step : Step} {c : Checked α} {x : α} : within step c = .ok x ↔ c = .ok x := by
  cases c <;> simp [within, Except.mapError]

theorem all_eq_ok {α : Type} : ∀ {cs : List (Checked α)} {xs : List α},
    all cs = .ok xs ↔ List.Forall₂ (fun c x => c = .ok x) cs xs
  | [], xs => by
    rw [all, List.forall₂_nil_left_iff]
    exact ⟨fun h => (Except.ok.inj h).symm, fun h => h ▸ rfl⟩
  | c :: cs, xs => by
    rw [List.forall₂_cons_left_iff, all]
    simp only [← all_eq_ok]
    cases c with
    | error fs => cases all cs <;> simp [both, Except.map]
    | ok x => cases all cs <;> simp [both, Except.map, eq_comm]

/-! ## Reading a reduced tree -/

/-- Entries with the paths among them reduced to one. -/
def onlyEntries (path : Text) (entries : Entries) : Entries :=
  entries.map fun e => if e.1 = .text "paths" then (e.1, onlyValue path e.2) else e

theorem eraseEntries_eq : ∀ es : List (Tree × Tree), Tree.eraseEntries es = es.map fun e => (e.1.erase, e.2.erase)
  | [] => rfl
  | (k, v) :: rest => by rw [Tree.eraseEntries, eraseEntries_eq rest, List.map_cons]

theorem erase_onlyItem (path : Text) (t : Tree) : (onlyItem path t).erase = onlyValue path t.erase := by
  cases t with
  | map number entries =>
    simp only [onlyItem, Tree.erase, onlyValue, eraseEntries_eq, List.filter_map, Function.comp_def]
  | _ => rfl

theorem eraseEntries_onlySource (path : Text) (source : List (Tree × Tree)) :
    Tree.eraseEntries (onlySource path source) = onlyEntries path (Tree.eraseEntries source) := by
  simp only [eraseEntries_eq, onlySource, onlyEntries, List.map_map]
  refine List.map_congr_left fun e _ => ?_
  simp only [Function.comp_def]
  split
  · rw [erase_onlyItem]
  · rfl

theorem lookup?_onlyEntries (path name : Text) (es : Entries) :
    Value.lookup? (.text name) (onlyEntries path es) =
      (Value.lookup? (.text name) es).map (if name = "paths" then onlyValue path else id) := by
  have hkey : ∀ e : Value × Value, (if e.1 = .text "paths" then (e.1, onlyValue path e.2) else e).1 = e.1 := fun e => by
    split <;> rfl
  unfold Value.lookup? onlyEntries
  simp only [List.find?_map, Function.comp_def, hkey, Option.map_map]
  cases he : es.find? fun e => e.1.sameValue (.text name) with
  | none => rfl
  | some e =>
    have hsame := List.find?_some he
    have hname : e.1 = .text name := sameValue_text.1 hsame
    simp only [Option.map_some, hname, Value.text.injEq]
    split <;> rfl

theorem checkOthers_onlyEntries (path : Text) (es : Entries) :
    checkOthers ["info", "paths"] (onlyEntries path es) = checkOthers ["info", "paths"] es := by
  have hkey : ∀ e : Value × Value, (if e.1 = .text "paths" then (e.1, onlyValue path e.2) else e).1 = e.1 := fun e => by
    split <;> rfl
  unfold checkOthers onlyEntries
  simp only [List.filter_map, Function.comp_def, hkey]
  congr 2
  refine (List.map_congr_left fun e he => if_neg fun hpaths => ?_).trans (List.map_id _)
  have hother := (List.mem_filter.1 he).2
  simp [hpaths] at hother

theorem checkPaths_onlyValue {v : Value} {ps : List (Text × Option (List (Text × Value)))}
    (h : ApiDocument.checkPaths v = .ok ps) :
    ApiDocument.checkPaths (onlyValue path v) = .ok (ps.filter fun e => e.1 == path) := by
  cases v with
  | map entries =>
    unfold ApiDocument.checkPaths at h
    unfold onlyValue ApiDocument.checkPaths
    rw [all_eq_ok, List.forall₂_map_left_iff] at h ⊢
    refine List.rel_filter (fun e e' he => ?_) h
    obtain ⟨hkey, -⟩ := both_eq_ok.1 (within_eq_ok.1 he)
    change spells path e.1 = true ↔ (e'.1 == path) = true
    unfold spells
    rw [within_eq_ok.1 hkey]
    simp [Except.toOption]
  | _ => cases h

theorem fitting_eq_ok {α : Type} {origin : Option Text} {model : String} {c : Checked α} {x : α} :
    fitting origin model c = .ok x ↔ c = .ok x := by
  unfold fitting
  cases c <;> simp [Except.mapError]

theorem ofTree_eq_ok {number : Option Nat} : (ApiDocument.ofTree (.map number source) origin).2 = .ok d ↔
    ∃ d₀, ApiDocument.check (.map (Tree.eraseEntries source)) = .ok d₀ ∧ d = { d₀ with source } ∧
      ∃ es, d.endpoints.2 = .ok es := by
  unfold ApiDocument.ofTree
  dsimp only [Tree.erase]
  cases hd : fitting (some origin) "ApiDoc" (ApiDocument.check (.map (Tree.eraseEntries source))) with
  | error f =>
    refine ⟨fun h => (by cases h), ?_⟩
    rintro ⟨d₀, hd₀, -⟩
    rw [fitting_eq_ok.2 hd₀] at hd
    cases hd
  | ok d₀ =>
    rw [fitting_eq_ok.1 hd]
    change (({ d₀ with source } : ApiDocument).endpoints.2.map fun _ => ({ d₀ with source } : ApiDocument)) = .ok d ↔ _
    constructor
    · intro h
      cases hes : ({ d₀ with source } : ApiDocument).endpoints.2 with
      | error f =>
        rw [hes] at h
        cases h
      | ok es =>
        rw [hes] at h
        cases h
        exact ⟨d₀, rfl, rfl, es, hes⟩
    · rintro ⟨_, h, rfl, es, hes⟩
      cases h
      rw [hes]
      rfl

/-- **A reduced tree describes the reduced document**: a document can be reduced before it is read. -/
theorem ofTree_only {number : Option Nat} (h : (ApiDocument.ofTree (.map number source) origin).2 = .ok d) (path : Text) :
    (ApiDocument.ofTree (.map number (onlySource path source)) origin).2 = .ok (d.only path) := by
  obtain ⟨d₀, hd₀, rfl, es, hes⟩ := ofTree_eq_ok.1 h
  rw [ofTree_eq_ok]
  refine ⟨d₀.only path, ?_, rfl, _, endpoints_only hes⟩
  unfold ApiDocument.check at hd₀ ⊢
  rw [eraseEntries_onlySource]
  obtain ⟨x, hx, hend⟩ := bind_eq_ok.1 hd₀
  obtain ⟨⟨info, paths⟩, others⟩ := x
  obtain ⟨hfields, hothers⟩ := both_eq_ok.1 hx
  obtain ⟨hinfo, hpaths⟩ := both_eq_ok.1 hfields
  cases hend
  refine bind_eq_ok.2 ⟨((info, paths.map fun ps => ps.filter fun e => e.1 == path), others), ?_, ?_⟩
  · refine both_eq_ok.2 ⟨both_eq_ok.2 ⟨?_, ?_⟩, (checkOthers_onlyEntries path _).trans hothers⟩
    · unfold allowed at hinfo ⊢
      rw [lookup?_onlyEntries, if_neg (by decide), Option.map_id]
      exact hinfo
    · unfold allowed at hpaths ⊢
      rw [lookup?_onlyEntries, if_pos rfl]
      cases hv : Value.lookup? (.text "paths") (Tree.eraseEntries source) with
      | none =>
        rw [hv] at hpaths
        cases hpaths
        rfl
      | some v =>
        rw [hv] at hpaths
        obtain ⟨ps, hps, rfl⟩ : ∃ ps, ApiDocument.checkPaths v = .ok ps ∧ paths = some ps := by
          cases hps : ApiDocument.checkPaths v with
          | error fs =>
            simp only [hps] at hpaths
            cases hpaths
          | ok ps =>
            simp only [hps] at hpaths
            cases hpaths
            exact ⟨ps, rfl, rfl⟩
        simp only [Option.map_some, checkPaths_onlyValue hps]
        rfl
  · cases paths <;> rfl

end ApiRoutes.Spec
