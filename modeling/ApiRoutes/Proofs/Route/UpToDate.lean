import ApiRoutes.Proofs.Route.EntryWrites
import ApiRoutes.Proofs.Route.Run
/-!
# Statements that are up to date

Statements that an edit of a merge leaves as they are, and shows to be so: a merge makes them up to
date (`mergeBody_upToDate`) and a second merge changes nothing (`UpToDate.mergeBody_gives`).
-/
namespace ApiRoutes.Route

open Script

/-! ## The parameters of an endpoint -/

/-- The array of the statements has these entries. -/
def ArrayUpToDate (ps : List Spec.Parameter) (body : List Node) : Prop :=
  ∃ c ms xs, (declaration? body).bind (·.init) = some c ∧ Collection.array.members? c = some ms ∧
    List.Forall₂ Entry.Of ps xs ∧ xs.foldl putEntry ms = ms

theorem withMembers_self {k : Collection} {c : Node} {ms : List Node} (h : k.members? c = some ms) :
    Collection.withMembers ms c = c := by
  obtain ⟨l, s⟩ := c
  cases k <;> cases s <;> cases h <;> rfl

theorem mergeEndpointParameters_gives {ps : List Spec.Parameter} {xs : List Entry}
    (h : List.Forall₂ Entry.Of ps xs) (body : List Node) :
    (mergeEndpointParameters ps).Gives body () (declare (Collection.withMembers
      (xs.foldl putEntry (membersOf .array body)) (collectionNode .array body)) body) := fun l => by
  obtain ⟨l', hr⟩ := mergeEndpointParameters_run ps body l
  rw [forM_putParameter_run h] at hr
  exact ⟨l', hr⟩

theorem arrayUpToDate_of_takes {ps : List Spec.Parameter} {body body' : List Node} {u : Unit}
    (h : (mergeEndpointParameters ps).Takes body u body') : ArrayUpToDate ps body' := by
  obtain ⟨ms, hms, rfl⟩ := mergeEndpointParameters_takes h
  obtain ⟨xs, hxs, rfl⟩ := forM_putParameter_takes hms
  exact ⟨_, _, xs, init_declare _ body, members?_withMembers (members?_collectionNode .array body) _,
    hxs, foldl_putEntry_foldl_putEntry xs _⟩

namespace ArrayUpToDate

variable {ps : List Spec.Parameter} {a b : List Node}

theorem gives (h : ArrayUpToDate ps a) : (mergeEndpointParameters ps).Gives a () a := by
  obtain ⟨c, ms, xs, hi, hc, hxs, hfix⟩ := h
  have hn := collectionNode_of_init hi hc
  have hm : membersOf .array a = ms := by rw [membersOf, hn, hc]; rfl
  have hg := mergeEndpointParameters_gives hxs a
  rwa [hm, hfix, hn, withMembers_self hc, declare_of_init hi] at hg

theorem steps {ms : List Managed} (h : ArrayUpToDate ps a) (hs : Managed.Steps ms a b)
    (hm : .collection ∉ ms) : ArrayUpToDate ps b := by
  have hd : declaration? b = declaration? a := by
    rw [declaration?_eq, declaration?_eq]
    exact congrArg (·.bind declared?) (hs.find? hm)
  unfold ArrayUpToDate
  rw [hd]
  exact h

end ArrayUpToDate

/-! ## One method -/

/-- The first handler of a method reads the parameters. -/
def HandlerUpToDate (verb : Text) (o : Spec.Operation) (body : List Node) : Prop :=
  ∃ f accesses, Managed.handler? (some verb) body = some f ∧
    o.parameters.mapM (accessTo (requestName f.params)) = .ok accesses ∧ withAccesses accesses f = f

/-- The first documentation of a method is that of the document. -/
def DocumentationUpToDate (verb : Text) (o : Spec.Operation) (body : List Node) : Prop :=
  ∃ entries value n, o.documentation = .ok entries ∧ Node.ofValue (.map entries) = .ok value ∧
    body.find? (Managed.documentation verb).finds = some n ∧ documentingFor verb value n = n

theorem withAccesses_withAccesses {request : Text} {accesses : List Access}
    (h : ∀ a ∈ accesses, a.request = request) (f : Function) :
    withAccesses accesses (withAccesses accesses f) = withAccesses accesses f := by
  have hc := members?_methodCollection accesses f.body
  have hm : methodCollection accesses (declare (methodCollection accesses f.body) f.body) =
      methodCollection accesses f.body := by
    conv => lhs; rw [methodCollection]
    rw [collectionNode_declare hc, membersOf_declare hc, readingMembers_readingMembers h,
      withMembers_self hc]
  simp only [withAccesses]
  rw [hm, declare_declare]

theorem ensureHandler_gives {verb path : Text} {o : Spec.Operation} {body : List Node} {f : Function}
    {accesses : List Access} (hf : Managed.handler? (some verb) body = some f)
    (ha : o.parameters.mapM (accessTo (requestName f.params)) = .ok accesses) :
    (ensureHandler verb path o).Gives body ()
      (alterFirst (Managed.handler (some verb)).finds (reading accesses) body) := by
  have hw : withHandler verb path body = body :=
    if_pos ((handler?_isSome _ _).symm.trans (by rw [hf]; rfl))
  have hg : (ensureHandler verb path o).Gives body ()
      (alterFirst (Managed.handler (some verb)).finds (reading accesses) (withHandler verb path body)) :=
    ensureHandler_puts (by rwa [hw]) ha
  rwa [hw] at hg

theorem handlerUpToDate_of_takes {verb path : Text} {o : Spec.Operation} {body body' : List Node}
    {u : Unit} (h : (ensureHandler verb path o).Takes body u body') : HandlerUpToDate verb o body' := by
  obtain ⟨f, accesses, hf, ha, rfl⟩ := ensureHandler_takes h
  have hrequest : ∀ a ∈ accesses, a.request = requestName f.params := by
    rw [mapM_accessTo ha]
    simp
  exact ⟨withAccesses accesses f, accesses, handler?_reading hf, ha,
    withAccesses_withAccesses hrequest f⟩

namespace HandlerUpToDate

variable {verb : Text} {o : Spec.Operation} {a b : List Node}

theorem gives (h : HandlerUpToDate verb o a) (path : Text) :
    (ensureHandler verb path o).Gives a () a := by
  obtain ⟨f, accesses, hf, ha, hfix⟩ := h
  obtain ⟨l, hn⟩ := Managed.find?_handler hf
  have hg : (ensureHandler verb path o).Gives a ()
      (alterFirst (Managed.handler (some verb)).finds (reading accesses) a) :=
    ensureHandler_gives hf ha
  have hreading : reading accesses (.mk l (.function f)) = .mk l (.function f) :=
    congrArg (fun f => Node.mk l (.function f)) hfix
  rwa [alterFirst_of_find? hn hreading] at hg

theorem steps {ms : List Managed} (h : HandlerUpToDate verb o a) (hs : Managed.Steps ms a b)
    (hm : .handler (some verb) ∉ ms) : HandlerUpToDate verb o b := by
  unfold HandlerUpToDate
  rw [Managed.handler?_eq_of_find? (hs.find? hm)]
  exact h

end HandlerUpToDate

theorem documentHandler_gives {verb : Text} {o : Spec.Operation} {entries : Entries} {value : Node}
    (he : o.documentation = .ok entries) (hv : Node.ofValue (.map entries) = .ok value)
    (body : List Node) :
    (documentHandler verb o).Gives body () (withDocumentation verb value body) := by
  have hs : documentationStatement verb o = .ok (documenting verb value) := by
    unfold documentationStatement
    rw [he]
    simp only [bind, Except.bind, hv]
    rfl
  refine Edit.Gives.bind (Edit.Gives.ofOutcome hs body) ?_
  refine Edit.Gives.modify ?_
  unfold withDocumentation
  cases hi : (Query.documentation (some verb)).index? body with
  | none =>
    have ha : body.any (Managed.documentation verb).finds = false := not_any_of_findIdx? hi
    rw [ha]
    rfl
  | some i =>
    have ha : body.any (Managed.documentation verb).finds = true := any_of_findIdx? hi
    rw [if_pos ha]
    exact modify_findIdx? _ hi

theorem documentationUpToDate_of_takes {verb : Text} {o : Spec.Operation} {body body' : List Node}
    {u : Unit} (h : (documentHandler verb o).Takes body u body') :
    DocumentationUpToDate verb o body' := by
  obtain ⟨entries, value, he, hv, rfl⟩ := documentHandler_takes h
  obtain ⟨n, hn, hfix⟩ := find?_withDocumentation verb value body
  exact ⟨entries, value, n, he, hv, hn, hfix⟩

namespace DocumentationUpToDate

variable {verb : Text} {o : Spec.Operation} {a b : List Node}

theorem gives (h : DocumentationUpToDate verb o a) : (documentHandler verb o).Gives a () a := by
  obtain ⟨entries, value, n, he, hv, hn, hfix⟩ := h
  have hg : (documentHandler verb o).Gives a () (withDocumentation verb value a) :=
    documentHandler_gives he hv a
  rwa [withDocumentation, if_pos (any_of_find? hn), alterFirst_of_find? hn hfix] at hg

theorem steps {ms : List Managed} (h : DocumentationUpToDate verb o a) (hs : Managed.Steps ms a b)
    (hm : .documentation verb ∉ ms) : DocumentationUpToDate verb o b := by
  unfold DocumentationUpToDate
  rw [hs.find? hm]
  exact h

end DocumentationUpToDate

/-- The statements of a method are up to date. -/
structure MethodUpToDate (verb : Text) (o : Spec.Operation) (body : List Node) : Prop where
  handler : HandlerUpToDate verb o body
  documentation : DocumentationUpToDate verb o body

theorem methodUpToDate_of_takes {path verb : Text} {o : Spec.Operation} {body body' : List Node}
    {u : Unit} (h : (mergeOperation path verb o).Takes body u body') :
    MethodUpToDate verb o body' := by
  unfold mergeOperation at h
  obtain ⟨_, b, hh, hd⟩ := h.of_log_bind.of_bind
  obtain ⟨entries, value, -, -, hb⟩ := documentHandler_takes hd
  have hs : Managed.Steps [.documentation verb] b body' :=
    hb ▸ (step_withDocumentation verb value b).steps
  exact ⟨(handlerUpToDate_of_takes hh).steps hs (by simp), documentationUpToDate_of_takes hd⟩

namespace MethodUpToDate

variable {verb : Text} {o : Spec.Operation} {a b : List Node}

theorem gives (h : MethodUpToDate verb o a) (path : Text) :
    (mergeOperation path verb o).Gives a () a :=
  (Edit.Gives.log _ _ a).bind ((h.handler.gives path).bind h.documentation.gives)

theorem steps {ms : List Managed} (h : MethodUpToDate verb o a) (hs : Managed.Steps ms a b)
    (hm : ∀ m ∈ managedOf verb, m ∉ ms) : MethodUpToDate verb o b :=
  ⟨h.handler.steps hs (hm _ (by simp [managedOf])),
    h.documentation.steps hs (hm _ (by simp [managedOf]))⟩

end MethodUpToDate

theorem managedOf_disjoint {v w : Text} (h : v ≠ w) : ∀ m ∈ managedOf v, m ∉ managedOf w := by
  intro m hm hm'
  simp only [managedOf, List.mem_cons, List.not_mem_nil, or_false] at hm hm'
  obtain rfl | rfl := hm <;> obtain hm' | hm' := hm' <;> cases hm' <;> exact h rfl

/-- **The edits for all methods bring every one of them up to date**, the later ones leave the earlier
ones so. -/
theorem methodsUpToDate_of_takes {path : Text} :
    ∀ {os : List (Text × Spec.Operation)} {body body' : List Node} {u : Unit},
      (os.map (·.1)).Nodup → (os.forM fun (verb, o) => mergeOperation path verb o).Takes body u body' →
      ∀ x ∈ os, MethodUpToDate x.1 x.2 body'
  | [], _, _, _, _, _ => fun _ hx => absurd hx List.not_mem_nil
  | (verb, o) :: os, _, _, _, hnodup, h => by
    obtain ⟨_, b, h₁, h₂⟩ := Edit.Takes.of_bind h
    rw [List.map_cons, List.nodup_cons] at hnodup
    obtain ⟨ms, hs, hms⟩ := mergeOperations_steps h₂
    rintro x hx
    obtain rfl | hx := List.mem_cons.1 hx
    · refine (methodUpToDate_of_takes h₁).steps hs fun m hm hmem => ?_
      obtain ⟨w, hw, hm'⟩ := List.mem_flatMap.1 ((hms m).1 hmem)
      have hne : verb ≠ w := by
        rintro rfl
        exact hnodup.1 hw
      exact managedOf_disjoint hne m hm hm'
    · exact methodsUpToDate_of_takes hnodup.2 h₂ x hx

theorem mergeOperations_gives {path : Text} : ∀ {os : List (Text × Spec.Operation)} {body : List Node},
    (∀ x ∈ os, MethodUpToDate x.1 x.2 body) →
      (os.forM fun (verb, o) => mergeOperation path verb o).Gives body () body
  | [], body, _ => Edit.Gives.pure () body
  | x :: _, _, h =>
    ((h x List.mem_cons_self).gives path).bind
      (mergeOperations_gives fun y hy => h y (List.mem_cons_of_mem x hy))

/-! ## An endpoint -/

/-- The first return offers the handlers of these methods. -/
def ReturnUpToDate (verbs : List Text) (body : List Node) : Prop :=
  ∃ n, body.find? Managed.returns.finds = some n ∧ n.withShape (.returns (some (offered verbs))) = n

theorem ReturnUpToDate.offerHandlers_eq {verbs : List Text} {body : List Node}
    (h : ReturnUpToDate verbs body) : offerHandlers verbs body = body := by
  obtain ⟨n, hn, hfix⟩ := h
  rw [Route.offerHandlers_eq, if_pos (any_of_find? hn), alterFirst_of_find? hn hfix]

/-- The statements of a route function are up to date with an endpoint. -/
structure UpToDate (e : Spec.Endpoint) (body : List Node) : Prop where
  array : ∀ ps, e.parameters = some ps → ArrayUpToDate ps body
  methods : ∀ x ∈ e.operations, MethodUpToDate x.1 x.2 body
  returns : ReturnUpToDate e.verbs body

/-- **A merge brings the statements up to date.** -/
theorem mergeBody_upToDate {e : Spec.Endpoint} {body body' : List Node} {u : Unit}
    (h : (mergeBody e).Takes body u body') : UpToDate e body' := by
  obtain ⟨b₁, b₂, h₁, h₂, rfl⟩ := mergeBody_takes h
  have hr := (step_offerHandlers e.verbs b₂).steps
  refine ⟨fun ps hps => ?_, fun x hx => ?_, find?_offerHandlers e.verbs b₂⟩
  · rw [hps] at h₁
    obtain ⟨ms, hs, hms⟩ := mergeOperations_steps h₂
    refine ((arrayUpToDate_of_takes h₁).steps hs fun hm => ?_).steps hr (by simp)
    simpa [managedOf] using (hms _).1 hm
  · exact (methodsUpToDate_of_takes e.distinct h₂ x hx).steps hr (by simp [managedOf])

/-- **A merge changes nothing that is up to date.** -/
theorem UpToDate.mergeBody_gives {e : Spec.Endpoint} {body : List Node} (h : UpToDate e body) :
    (mergeBody e).Gives body () body := by
  have hrest : (do
      e.operations.forM fun (verb, o) => mergeOperation e.path verb o
      modify (offerHandlers e.verbs) : Edit (List Node) Unit).Gives body () body := by
    refine (mergeOperations_gives h.methods).bind ?_
    exact Edit.Gives.modify h.returns.offerHandlers_eq
  unfold mergeBody
  cases hp : e.parameters with
  | none => exact hrest
  | some ps => exact (h.array ps hp).gives.bind hrest

end ApiRoutes.Route
