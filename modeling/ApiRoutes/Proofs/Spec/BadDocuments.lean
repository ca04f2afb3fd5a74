import ApiRoutes.Proofs.Spec.PathItems
/-!
# Bad documents

How reading a document ends (`ofTree_ends`): with the document, whose endpoints can then be made whenever they are
asked for; with a refusal that says what is wrong; or, because of one kind of value in one place, with neither.
-/
namespace ApiRoutes.Spec

/-- Is the failure a document's refusal? -/
def isRefusal : Failure → Bool
  | .notAMappingAtTop _ | .invalidDocument .. => true
  | _ => false

/-- Is the value one that cannot be gone through: a truth value, a number, a day or a moment? -/
def isPoint : Value → Bool
  | .bool _ | .int _ | .float _ | .date _ | .dateTime _ => true
  | _ => false

/-- Does the entry of a path item have such a value for parameters? -/
def hasPoint (x : Text × Value) : Bool := x.1 == "parameters" && x.2.isTruthy && isPoint x.2

/-! ## One entry -/

section Entry

variable {v : Value} {x : Text × Value} {e : Endpoint} {f : Failure}

theorem iterate_eq_error (hv : v.isTruthy = true) :
    iterate v = .error f ↔ isPoint v = true ∧ f = .misuse .notIterable := by
  cases v with
  | null => cases hv
  | _ => simp [iterate, isPoint, eq_comm]

theorem fitting_eq_error {α : Type} {origin : Option Text} {model : String} {c : Checked α}
    (h : fitting origin model c = .error f) : ∃ m, f = .invalidDocument origin m := by
  cases c with
  | ok a => cases h
  | error faults =>
    cases h
    exact ⟨_, rfl⟩

theorem endpointParameters_eq (v : Value) : endpointParameters v =
    (if v.isTruthy then iterate v else .ok []) >>= fun items =>
      items.mapM fun v => fitting none "ParameterSpec" (Parameter.check v) := by
  unfold endpointParameters
  split <;> rfl

/-- **Parameters are not made** of a value that cannot be gone through, and of one that does not fit. -/
theorem endpointParameters_eq_error (h : endpointParameters v = .error f) :
    (v.isTruthy = true ∧ isPoint v = true ∧ f = .misuse .notIterable) ∨ ∃ m, f = .invalidDocument none m := by
  have hfit : ∀ items : List Value,
      (items.mapM fun v => fitting none "ParameterSpec" (Parameter.check v)) = .error f →
        ∃ m, f = .invalidDocument none m := fun items hi => by
    obtain ⟨pre, w, post, -, -, hw⟩ := mapM_eq_error.1 hi
    exact fitting_eq_error hw
  rw [endpointParameters_eq] at h
  obtain h | ⟨items, -, h⟩ := bind_eq_error.1 h
  · split at h
    · rename_i hv
      obtain ⟨hp, rfl⟩ := (iterate_eq_error hv).1 h
      exact .inl ⟨hv, hp, rfl⟩
    · cases h
  · exact .inr (hfit items h)

theorem endpointParameters_of_isPoint (hv : v.isTruthy = true) (hp : isPoint v = true) :
    endpointParameters v = .error (.misuse .notIterable) := by
  rw [endpointParameters_eq, if_pos hv]
  exact bind_eq_error.2 (.inl ((iterate_eq_error hv).2 ⟨hp, rfl⟩))

/-- **An entry that is not taken** has a point for parameters, or something in it does not fit. -/
theorem takeEntry_eq_error (h : takeEntry e x = .error f) :
    (hasPoint x = true ∧ f = .misuse .notIterable) ∨ ∃ m, f = .invalidDocument none m := by
  rw [takeEntry] at h
  split at h
  · rename_i hp
    obtain ⟨hv, hpoint, rfl⟩ | hm := endpointParameters_eq_error (map_eq_error.1 h)
    · exact .inl ⟨by rw [hasPoint, hp, hv, hpoint]; rfl, rfl⟩
    · exact .inr hm
  · split at h
    · cases h
    · split at h
      · cases h
      · exact .inr (fitting_eq_error (map_eq_error.1 h))

theorem takeEntry_of_hasPoint (h : hasPoint x = true) (e : Endpoint) :
    takeEntry e x = .error (.misuse .notIterable) := by
  rw [hasPoint, Bool.and_eq_true, Bool.and_eq_true, beq_iff_eq] at h
  rw [takeEntry, if_pos h.1.1]
  exact map_eq_error.2 (endpointParameters_of_isPoint h.1.2 h.2)

theorem takeEntry_eq_misuse : takeEntry e x = .error (.misuse .notIterable) ↔ hasPoint x = true := by
  refine ⟨fun h => ?_, fun h => takeEntry_of_hasPoint h e⟩
  obtain ⟨hp, -⟩ | ⟨m, hm⟩ := takeEntry_eq_error h
  · exact hp
  · cases hm

end Entry

/-! ## Path items -/

/-- The first entry of a path item that no endpoint takes has a point for parameters. -/
def ItemBreaks (path : Text) (item : List (Text × Value)) : Prop :=
  ∃ pre x post, item = pre ++ x :: post ∧ (∃ e, (Endpoint.ofItem path pre).2 = .ok e) ∧ hasPoint x = true

theorem ofItem_eq_misuse {path : Text} {item : List (Text × Value)} :
    (Endpoint.ofItem path item).2 = .error (.misuse .notIterable) ↔ ItemBreaks path item := by
  rw [ofItem_eq, foldlM_eq_error]
  constructor
  · rintro ⟨pre, x, post, e, hsplit, hpre, hx⟩
    exact ⟨pre, x, post, hsplit, ⟨e, (ofItem_eq path pre).trans hpre⟩, takeEntry_eq_misuse.1 hx⟩
  · rintro ⟨pre, x, post, hsplit, ⟨e, hpre⟩, hx⟩
    exact ⟨pre, x, post, e, hsplit, (ofItem_eq path pre).symm.trans hpre, takeEntry_eq_misuse.2 hx⟩

theorem ofItem_eq_error {path : Text} {item : List (Text × Value)} {f : Failure}
    (h : (Endpoint.ofItem path item).2 = .error f) : f = .misuse .notIterable ∨ ∃ m, f = .invalidDocument none m := by
  rw [ofItem_eq] at h
  obtain ⟨-, x, -, e, -, -, hx⟩ := foldlM_eq_error.1 h
  exact (takeEntry_eq_error hx).imp And.right id

/-! ## Documents -/

/-- The first path item that gives no endpoint is one that breaks. -/
def PathsBreak (paths : List (Text × Option (List (Text × Value)))) : Prop :=
  ∃ pre path item post, paths = pre ++ (path, item) :: post ∧
    (∀ x ∈ pre, ∃ e, (Endpoint.ofItem x.1 (x.2.getD [])).2 = .ok e) ∧ ItemBreaks path (item.getD [])

/-- A document that fits its model, but for a path item that breaks. -/
def Breaks (t : Yaml.Tree) : Prop :=
  ∃ number source d, t = .map number source ∧ ApiDocument.check t.erase = .ok d ∧ PathsBreak d.paths

theorem endpoints_eq_misuse {d : ApiDocument} :
    d.endpoints.2 = .error (.misuse .notIterable) ↔ PathsBreak d.paths := by
  unfold ApiDocument.endpoints
  rw [endpointsOf_eq, mapM_eq_error]
  constructor
  · rintro ⟨pre, x, post, hsplit, hpre, hx⟩
    exact ⟨pre, x.1, x.2, post, hsplit, hpre, ofItem_eq_misuse.1 hx⟩
  · rintro ⟨pre, path, item, post, hsplit, hpre, hx⟩
    exact ⟨pre, (path, item), post, hsplit, hpre, ofItem_eq_misuse.2 hx⟩

theorem endpoints_eq_error {d : ApiDocument} {f : Failure} (h : d.endpoints.2 = .error f) :
    f = .misuse .notIterable ∨ ∃ m, f = .invalidDocument none m := by
  unfold ApiDocument.endpoints at h
  rw [endpointsOf_eq] at h
  obtain ⟨-, x, -, -, -, hx⟩ := mapM_eq_error.1 h
  exact ofItem_eq_error hx

/-- Reading a tree fails as its check fails, or as making the endpoints fails. -/
theorem ofTree_eq_error {number : Option Nat} {source : List (Yaml.Tree × Yaml.Tree)} {origin : Text} {f : Failure} :
    (ApiDocument.ofTree (.map number source) origin).2 = .error f ↔
      fitting (some origin) "ApiDoc" (ApiDocument.check (Yaml.Tree.map number source).erase) = .error f ∨
      ∃ d, ApiDocument.check (Yaml.Tree.map number source).erase = .ok d ∧ d.endpoints.2 = .error f := by
  unfold ApiDocument.ofTree
  dsimp only
  cases hd : ApiDocument.check (Yaml.Tree.map number source).erase with
  | error faults => simp [fitting, Except.mapError]
  | ok d =>
    rw [show fitting (some origin) "ApiDoc" (.ok d : Checked ApiDocument) = .ok d from rfl]
    dsimp only
    rw [map_eq_error]
    simp [ApiDocument.endpoints]

/-- **How reading a document ends.**  Either there is a document, and making its endpoints succeeds with one for each
path; or it is refused; or it breaks.  It breaks exactly where nothing before is wrong and the parameters of a path
item are a truth value, a number, a day or a moment that counts as present. -/
theorem ofTree_ends (t : Yaml.Tree) (origin : Text) :
    ((∃ d es, (ApiDocument.ofTree t origin).2 = .ok d ∧ d.endpoints.2 = .ok es ∧
        es.map (·.path) = d.paths.map (·.1)) ∨
      (∃ f, (ApiDocument.ofTree t origin).2 = .error f ∧ isRefusal f = true) ∨
      (ApiDocument.ofTree t origin).2 = .error (.misuse .notIterable)) ∧
    ((ApiDocument.ofTree t origin).2 = .error (.misuse .notIterable) ↔ Breaks t) := by
  cases t with
  | map number source =>
    constructor
    · cases hr : (ApiDocument.ofTree (.map number source) origin).2 with
      | ok d =>
        obtain ⟨-, -, -, es, hes⟩ := ofTree_eq_ok.1 hr
        exact .inl ⟨d, es, rfl, hes, paths_endpoints hes⟩
      | error f =>
        obtain hf | ⟨d, -, hd⟩ := ofTree_eq_error.1 hr
        · obtain ⟨m, rfl⟩ := fitting_eq_error hf
          exact .inr (.inl ⟨_, rfl, rfl⟩)
        · obtain rfl | ⟨m, rfl⟩ := endpoints_eq_error hd
          · exact .inr (.inr rfl)
          · exact .inr (.inl ⟨_, rfl, rfl⟩)
    · rw [ofTree_eq_error]
      constructor
      · rintro (hf | ⟨d, hc, hd⟩)
        · obtain ⟨m, hm⟩ := fitting_eq_error hf
          cases hm
        · exact ⟨number, source, d, rfl, hc, endpoints_eq_misuse.1 hd⟩
      · rintro ⟨-, -, d, -, hc, hd⟩
        exact .inr ⟨d, hc, endpoints_eq_misuse.2 hd⟩
  | _ =>
    refine ⟨.inr (.inl ⟨_, rfl, rfl⟩), fun h => ?_, fun h => ?_⟩
    · cases h
    · obtain ⟨number, source, d, ht, -⟩ := h
      cases ht

/-- A document with a number for the parameters of a path. -/
def numberedDocument : Value :=
  .map [(.text "paths", .map [(.text "/a", .map [(.text "parameters", .int 5)])])]

/-- **A number in the place of parameters is not refused**: reading the document breaks. -/
theorem ofValue_breaks_numbered :
    (ApiDocument.ofValue numberedDocument "<document>").2 = .error (.misuse .notIterable) ∧
    isRefusal (.misuse .notIterable) = false := by
  refine ⟨?_, rfl⟩
  have hfailure : (ApiDocument.ofValue numberedDocument "<document>").2.map (fun _ => ()) =
      .error (.misuse .notIterable) := by decide +kernel
  exact map_eq_error.1 hfailure

end ApiRoutes.Spec
