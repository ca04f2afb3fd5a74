import ApiRoutes.Proofs.Route.Completeness
import ApiRoutes.Proofs.Route.MethodParameters
import ApiRoutes.Proofs.Route.OrdinaryValues
import ApiRoutes.Proofs.Route.Preservation
/-!
# Merges that fail

When a merge of an endpoint with ordinary values fails, and what it leaves (`mergeEndpoint_ends`): the default
export can be no function, and then nothing has changed; or a parameter has a location that requests do not have,
and then the methods before it are done and those after it have not been touched.
-/
namespace ApiRoutes.Route

open Script

/-! ## One method -/

section Method

variable {verb path : Text} {o : Spec.Operation}

theorem mergeOperation_gives (verb path : Text) (ho : o.isOrdinary = true)
    (hp : o.parameters.find? hasNoPlace = none) (body : List Node) :
    ∃ body', (mergeOperation path verb o).Gives body () body' := by
  obtain ⟨entries, value, he, hv⟩ := Spec.Operation.exists_documentation ho
  obtain ⟨f, hf⟩ := exists_withHandler verb path body
  have ha : o.parameters.mapM (accessTo (requestName f.params)) =
      .ok (accessesTo (requestName f.params) o.parameters) := by
    rw [mapM_accessTo_eq, hp]
  exact ⟨_, (Edit.Gives.log _ _ body).bind ((ensureHandler_puts hf ha).bind (documentHandler_gives he hv _))⟩

/-- **A method with a parameter that has no place** is refused before anything but a new handler is there. -/
theorem mergeOperation_refuses {q : Spec.Parameter} (hp : o.parameters.find? hasNoPlace = some q) (body : List Node) :
    (mergeOperation path verb o).Refuses body (.unsupportedLocation q.location q.name)
      (withHandler verb path body) := by
  obtain ⟨f, hf⟩ := exists_withHandler verb path body
  have ha : o.parameters.mapM (accessTo (requestName f.params)) =
      .error (.unsupportedLocation q.location q.name) := by
    rw [mapM_accessTo_eq, hp]
  exact (Edit.Gives.log _ _ body).bind_refuses ((ensureHandler_refuses hf ha).bind _)

end Method

/-! ## The methods one after the other -/

/-- The methods before the first one with a parameter that has no place, that method, and those after it. -/
structure Refused (os before : List (Text × Spec.Operation)) (verb : Text) (o : Spec.Operation)
    (after : List (Text × Spec.Operation)) (q : Spec.Parameter) : Prop where
  split : os = before ++ (verb, o) :: after
  placed : ∀ x ∈ before, ∀ p ∈ x.2.parameters, hasNoPlace p = false
  first : o.parameters.find? hasNoPlace = some q

/-- **The edits for all methods** stop at the first parameter without a place, if there is one. -/
theorem mergeOperations_ends (path : Text) : ∀ {os : List (Text × Spec.Operation)},
    (∀ x ∈ os, x.2.isOrdinary = true) → ∀ body : List Node,
    match (os.flatMap (·.2.parameters)).find? hasNoPlace with
    | none => ∃ body', (os.forM fun (verb, o) => mergeOperation path verb o).Gives body () body'
    | some q => ∃ before verb o after mid, Refused os before verb o after q ∧
        (before.forM fun (verb, o) => mergeOperation path verb o).Gives body () mid ∧
        (os.forM fun (verb, o) => mergeOperation path verb o).Refuses body
          (.unsupportedLocation q.location q.name) (withHandler verb path mid)
  | [], _, body => ⟨body, Edit.Gives.pure () body⟩
  | (verb, o) :: os, h, body => by
    rw [List.flatMap_cons, List.find?_append]
    cases hp : o.parameters.find? hasNoPlace with
    | some q =>
      exact ⟨[], verb, o, os, body, ⟨rfl, by simp, hp⟩, Edit.Gives.pure () body,
        (mergeOperation_refuses hp body).bind _⟩
    | none =>
      -- The first method succeeds; the parameter that is refused is then the first one of the rest.
      obtain ⟨b, hb⟩ := mergeOperation_gives verb path (h _ List.mem_cons_self) hp body
      have ih := mergeOperations_ends path (fun x hx => h x (List.mem_cons_of_mem _ hx)) b
      rw [Option.none_or]
      cases hq : (os.flatMap (·.2.parameters)).find? hasNoPlace with
      | none =>
        rw [hq] at ih
        obtain ⟨b', hb'⟩ := ih
        exact ⟨b', hb.bind hb'⟩
      | some q =>
        rw [hq] at ih
        obtain ⟨before, v, o', after, mid, hr, hg, hx⟩ := ih
        refine ⟨(verb, o) :: before, v, o', after, mid, ⟨?_, ?_, hr.first⟩, hb.bind hg, hb.bind_refuses hx⟩
        · rw [hr.split, List.cons_append]
        · refine List.forall_mem_cons.2 ⟨fun p hp' => ?_, hr.placed⟩
          simpa using List.find?_eq_none.1 hp p hp'

/-! ## The statements of a route function -/

/-- The kinds of statements that a merge is at before it comes to the next method. -/
def managedBefore (e : Spec.Endpoint) (before : List (Text × Spec.Operation)) : List Managed :=
  (if e.parameters.isSome then [.collection] else []) ++ (before.map (·.1)).flatMap managedOf

/-- What a merge leaves that stops at a method. -/
structure StopsAt (e : Spec.Endpoint) (before : List (Text × Spec.Operation)) (verb : Text)
    (after : List (Text × Spec.Operation)) (body body' : List Node) : Prop where
  /-- The methods before it are done. -/
  done : ∀ x ∈ before, Current x.1 x.2 body'
  /-- Its handlers are as they were; where there was none, there is a new one. -/
  handler : body'.filter (Managed.handler (some verb)).finds =
    if body.any (Managed.handler (some verb)).finds then body.filter (Managed.handler (some verb)).finds
    else [newHandler verb e.path]
  /-- Its documentation is as it was. -/
  documentation : body'.filter (Managed.documentation verb).finds = body.filter (Managed.documentation verb).finds
  /-- So are the handlers and documentations of the methods after it, -/
  later : ∀ x ∈ after, ∀ m ∈ managedOf x.1, body'.filter m.finds = body.filter m.finds
  /-- and the returns. -/
  returns : body'.filter Managed.returns.finds = body.filter Managed.returns.finds
  /-- All statements have grown from those before, as by merges for the kinds up to here. -/
  grown : ∃ kept new, Grown (managedBefore e before ++ [.handler (some verb)]) body body' kept new

theorem managedOf_disjoint_before {e : Spec.Endpoint} {before : List (Text × Spec.Operation)} {v : Text}
    (hv : v ∉ before.map (·.1)) : ∀ m ∈ managedOf v, m ∉ managedBefore e before := fun m hm h => by
  obtain h | h := List.mem_append.1 h
  · split at h
    · cases List.mem_singleton.1 h
      simp [managedOf] at hm
    · cases h
  · obtain ⟨w, hw, hmw⟩ := List.mem_flatMap.1 h
    exact managedOf_disjoint (fun hvw : v = w => hv (hvw ▸ hw)) m hm hmw

theorem returns_not_mem_managedBefore (e : Spec.Endpoint) (before : List (Text × Spec.Operation)) :
    Managed.returns ∉ managedBefore e before := by
  unfold managedBefore
  split <;> simp [managedOf]

theorem filter_withHandler (verb path : Text) (body : List Node) :
    (withHandler verb path body).filter (Managed.handler (some verb)).finds =
      if body.any (Managed.handler (some verb)).finds then body.filter (Managed.handler (some verb)).finds
      else [newHandler verb path] := by
  unfold withHandler
  split
  · rfl
  · rename_i h
    obtain ⟨pre, post, rfl, hi, -⟩ := insertFirst_eq Query.returns.finds (newHandler verb path) body
    have hnone := List.filter_eq_nil_iff.2 (List.any_eq_false.1 (Bool.eq_false_iff.2 h))
    rw [List.filter_append, List.append_eq_nil_iff] at hnone
    rw [insertBeforeReturn_eq, hi, List.filter_append, hnone.1,
      List.filter_cons_of_pos (Managed.New.finds (m := .handler (some verb)) ⟨verb, path, rfl, rfl⟩), hnone.2]
    rfl

/-- **What the steps up to a method leave.** -/
theorem stopsAt_of_steps {e : Spec.Endpoint} {before after : List (Text × Spec.Operation)} {verb : Text}
    {o : Spec.Operation} {body mid : List Node} {ms : List Managed}
    (hsplit : e.operations = before ++ (verb, o) :: after) (hs : Managed.Steps ms body mid)
    (hms : ∀ m ∈ ms, m ∈ managedBefore e before) (hdone : ∀ x ∈ before, MethodUpToDate x.1 x.2 mid) :
    StopsAt e before verb after body (withHandler verb e.path mid) := by
  have hd := e.distinct
  rw [hsplit, List.map_append, List.map_cons, List.nodup_append, List.nodup_cons] at hd
  obtain ⟨-, ⟨hverb, -⟩, hdisjoint⟩ := hd
  obtain ⟨ms', hs', hms'⟩ := steps_withHandler verb e.path mid
  -- The methods of an endpoint are different ones, so no step so far is for this method or a later one.
  have hother : ∀ v ∈ verb :: after.map (·.1), ∀ m ∈ managedOf v, m ∉ ms := fun v hv m hm h =>
    managedOf_disjoint_before (fun hb => hdisjoint v hb v hv rfl) m hm (hms m h)
  have hkeep : ∀ m : Managed, m ∉ ms → m ≠ .handler (some verb) →
      (withHandler verb e.path mid).filter m.finds = body.filter m.finds := fun m hm hne => by
    rw [hs'.filter fun h => hne (hms' m h), hs.filter hm]
  refine ⟨fun x hx => ?_, ?_, ?_, fun x hx m hm => ?_, ?_, ?_⟩
  · refine ((hdone x hx).steps hs' fun m hm h => ?_).current
    have hne : x.1 ≠ verb := hdisjoint _ (List.mem_map_of_mem hx) _ List.mem_cons_self
    exact managedOf_disjoint hne m hm (by rw [hms' m h]; simp [managedOf])
  · have hf := hs.filter (hother verb List.mem_cons_self (.handler (some verb)) (by simp [managedOf]))
    -- There is a handler after the steps just where there was one before them.
    have hany := congrArg (List.any · (Managed.handler (some verb)).finds) hf
    simp only [List.any_filter, Bool.and_self] at hany
    rw [filter_withHandler, hany, hf]
  · exact hkeep _ (hother verb List.mem_cons_self _ (by simp [managedOf])) (by simp)
  · refine hkeep m (hother x.1 (List.mem_cons_of_mem _ (List.mem_map_of_mem hx)) m hm) ?_
    rintro rfl
    have hx' : x.1 = verb := by simpa [managedOf, eq_comm] using hm
    exact hverb (List.mem_map.2 ⟨x, hx, hx'⟩)
  · exact hkeep _ (fun h => returns_not_mem_managedBefore e before (hms _ h)) (by simp)
  · refine (Grown.refl _ body).steps (hs.append hs') fun m hm => ?_
    rw [List.mem_append, List.mem_singleton]
    exact (List.mem_append.1 hm).imp (hms m) (hms' m)

/-- What is merged before the methods succeeds, and is at the declaration of the parameters alone. -/
theorem mergeBody_begins {e : Spec.Endpoint} (he : e.isOrdinary = true) (body : List Node) :
    ∃ b₁ ms, Managed.Steps ms body b₁ ∧ (∀ m ∈ ms, m ∈ if e.parameters.isSome then [Managed.collection] else []) ∧
      (∀ b', (e.operations.forM fun (verb, o) => mergeOperation e.path verb o).Gives b₁ () b' →
        (mergeBody e).Gives body () (offerHandlers e.verbs b')) ∧
      ∀ x b', (e.operations.forM fun (verb, o) => mergeOperation e.path verb o).Refuses b₁ x b' →
        (mergeBody e).Refuses body x b' := by
  rw [Spec.Endpoint.isOrdinary, Bool.and_eq_true] at he
  unfold mergeBody
  cases hp : e.parameters with
  | none => exact ⟨body, [], .nil, by simp, fun b' h => h.bind (Edit.Gives.modify rfl), fun x b' h => h.bind _⟩
  | some ps =>
    rw [hp, Option.getD_some] at he
    obtain ⟨xs, hxs⟩ := exists_entries fun p hp => Spec.Parameter.exists_fields (List.all_eq_true.1 he.1 p hp)
    have hg := mergeEndpointParameters_gives hxs body
    exact ⟨_, [.collection], (step_declare _ body).steps, by simp,
      fun b' h => hg.bind (h.bind (Edit.Gives.modify rfl)), fun x b' h => hg.bind_refuses (h.bind _)⟩

theorem isOrdinary_of_mem {e : Spec.Endpoint} (he : e.isOrdinary = true) :
    ∀ x ∈ e.operations, x.2.isOrdinary = true := by
  rw [Spec.Endpoint.isOrdinary, Bool.and_eq_true] at he
  exact List.all_eq_true.1 he.2

/-- **The edits of a route function** for an endpoint with ordinary values fail when a parameter has no place. -/
theorem mergeBody_ends {e : Spec.Endpoint} (he : e.isOrdinary = true) (body : List Node) :
    match (e.operations.flatMap (·.2.parameters)).find? hasNoPlace with
    | none => ∃ body', (mergeBody e).Gives body () body'
    | some q => ∃ before verb o after body', Refused e.operations before verb o after q ∧
        StopsAt e before verb after body body' ∧
        (mergeBody e).Refuses body (.unsupportedLocation q.location q.name) body' := by
  obtain ⟨b₁, ms, hs, hms, hgives, hrefuses⟩ := mergeBody_begins he body
  have hends := mergeOperations_ends e.path (isOrdinary_of_mem he) b₁
  cases hq : (e.operations.flatMap (·.2.parameters)).find? hasNoPlace with
  | none =>
    rw [hq] at hends
    obtain ⟨b', hb'⟩ := hends
    exact ⟨_, hgives b' hb'⟩
  | some q =>
    rw [hq] at hends
    obtain ⟨before, verb, o, after, mid, hr, hg, hx⟩ := hends
    obtain ⟨ms', hs', hms'⟩ := mergeOperations_steps hg.takes
    have hd := e.distinct
    rw [hr.split, List.map_append, List.nodup_append] at hd
    refine ⟨before, verb, o, after, _, hr, stopsAt_of_steps hr.split (hs.append hs') (fun m hm => ?_)
      (methodsUpToDate_of_takes hd.1 hg.takes), hrefuses _ _ hx⟩
    exact List.mem_append.2 ((List.mem_append.1 hm).imp (hms m) (hms' m).1)

/-! ## Modules -/

/-- Does a module export something by default, and first of all something that is no function? -/
def exportsOther (p : Program) : Bool := p.body.any Query.defaultExport.finds && (exported? p.body).isNone

theorem isSome_exported?_withExport (p : Program) :
    (exported? (withExport p.body)).isSome = !exportsOther p := by
  rw [exported?_withExport, exportsOther]
  split
  · rename_i ha
    rw [ha, Bool.true_and, Option.not_isNone]
  · rename_i ha
    rw [Bool.eq_false_iff.2 ha]
    rfl

/-- A parameter that no request carries. -/
def tokenParameter : Spec.Parameter := { name := "token", location := "cookie", others := [("secure", .bool true)] }

/-- An endpoint whose second method has the parameter. -/
def refusedEndpoint : Spec.Endpoint where
  path := "/pets"
  parameters := some [{ name := "limit", location := "query", others := [("maximum", .int 100)] }]
  operations := [
    ("GET", { parameterList := some [{ name := "id", location := "path", others := [("format", .text "uuid")] }] }),
    ("POST", { parameterList := some [tokenParameter] }),
    ("PUT", { document := [(.text "summary", .text "Replace"), (.text "since", .date ⟨2020, 1, 1, by decide⟩)] })]

end ApiRoutes.Route
