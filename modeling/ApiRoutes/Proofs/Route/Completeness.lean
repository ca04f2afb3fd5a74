import ApiRoutes.Proofs.Route.UpToDate
/-!
# What a merge brings up to date

After an endpoint is merged into a module, every one of its methods has a handler that reads its
parameters and is documented as the document has it, and the exported function returns these handlers
(`mergeEndpoint_complete`).
-/
namespace ApiRoutes.Route

open Script

/-! ## One method -/

/-- The function has an object of parameters that reads each parameter of the operation from the
request. -/
def ReadsParameters (o : Spec.Operation) (f : Function) : Prop :=
  ∃ layout properties inline,
    (declaration? f.body).bind (·.init) = some (.mk layout (.object properties inline)) ∧
      ∀ q ∈ o.parameters, ∃ n ∈ properties,
        Reads ⟨requestName f.params, q.location, q.name⟩ n

/-- The statements are up to date with the operation of a method: its first handler reads the
parameters, and its first documentation is the literal of what the document says. -/
structure Current (verb : Text) (o : Spec.Operation) (body : List Node) : Prop where
  handler : ∃ f, Managed.handler? (some verb) body = some f ∧ ReadsParameters o f
  documentation : ∃ entries value n, o.documentation = .ok entries ∧
    Node.ofValue (.map entries) = .ok value ∧
    (Query.documentation (some verb)).first? body = some n ∧
    n.shape = .expression (.ofShape
      (.assignment ((Node.identifier verb).member documentationMember) value))

theorem readsParameters_withAccesses {o : Spec.Operation} {f : Function} {accesses : List Access}
    (h : o.parameters.mapM (accessTo (requestName f.params)) = .ok accesses) :
    ReadsParameters o (withAccesses accesses f) := by
  have hm := members?_methodCollection accesses f.body
  have hi := init_declare (methodCollection accesses f.body) f.body
  have ha := mapM_accessTo h
  rcases hc : methodCollection accesses f.body with ⟨layout, s⟩
  rw [hc] at hm hi
  cases s with
  | object properties inline =>
    refine ⟨layout, properties, inline, ?_, fun q hq => ?_⟩
    · rw [withAccesses, hc]
      exact hi
    · obtain rfl : properties = _ := Option.some.inj hm
      have hrequest : ∀ a ∈ accesses, a.request = requestName f.params := by
        rw [ha]
        simp
      refine (settled_foldl_putAccess _ hrequest _ (.inl ?_)).reads
      rw [ha]
      exact List.mem_map.2 ⟨q, hq, rfl⟩
  | _ => cases hm

theorem MethodUpToDate.current {verb : Text} {o : Spec.Operation} {body : List Node}
    (h : MethodUpToDate verb o body) : Current verb o body := by
  obtain ⟨f, accesses, hf, ha, hfix⟩ := h.handler
  obtain ⟨entries, value, n, he, hv, hn, hn'⟩ := h.documentation
  refine ⟨⟨f, hf, ?_⟩, entries, value, n, he, hv, hn, ?_⟩
  · rw [← hfix]
    exact readsParameters_withAccesses ha
  · rw [← hn']
    exact Node.shape_withLayout _ _

/-! ## Whole merges -/

/-- **A merge is complete.**  After an endpoint is merged into a module, every one of its methods is
current in the exported function; the first return offers exactly these methods, in their order; and
the handlers and documentations that were not there before stand above that return. -/
theorem mergeEndpoint_complete {e : Spec.Endpoint} {path : Option Text} {p p' : Program}
    {logs : List Record} (h : (mergeEndpoint e path).perform p = (p', .ok (), logs)) :
    (exported? p'.body).isSome = true ∧
    (∀ x ∈ e.operations, Current x.1 x.2 (routeBody p')) ∧
    (∃ n, Query.returns.first? (routeBody p') = some n ∧
      n.shape = .returns (some (.object (e.verbs.map fun v => .property v (.identifier v))))) ∧
    ∀ v ∈ e.verbs, ∀ m ∈ managedOf v, (routeBody p).any m.finds = false →
      ∃ i j, m.query.index? (routeBody p') = some i ∧
        Query.returns.index? (routeBody p') = some j ∧ i < j := by
  obtain ⟨hx, body, hb, rfl⟩ := mergeEndpoint_takes (Edit.Takes.of_perform h)
  rw [routeBody_withRouteBody hx]
  have hbody := mergeBody_upToDate hb
  obtain ⟨ms, hs, hms⟩ := mergeBody_steps hb
  obtain ⟨n, hn, hfix⟩ := hbody.returns
  have hreturns : body.any Managed.returns.finds = true :=
    any_of_find? hn
  refine ⟨?_, fun x hx => (hbody.methods x hx).current, ⟨n, hn, ?_⟩, fun v hv m hm hnone => ?_⟩
  · rw [exported?_withRouteBody, Option.isSome_map]
    exact hx
  · rw [← hfix]
    obtain ⟨l, s⟩ := n
    rfl
  · have hmem : m ∈ ms := (hms m).2 (by
      rw [managedBy, List.mem_append, List.mem_append]
      exact .inl (.inr (List.mem_flatMap.2 ⟨v, hv, hm⟩)))
    have hcount := hs.countP m
    rw [if_pos hmem] at hcount
    have hany : body.any m.finds = true := by
      have : 0 < body.countP m.finds := by omega
      rw [List.countP_pos_iff] at this
      simpa using this
    obtain ⟨i, hi⟩ := exists_findIdx?_of_any hany
    obtain ⟨j, hj⟩ := exists_findIdx?_of_any hreturns
    refine ⟨i, j, hi, hj, hs.beforeReturn ?_ ?_ i j hi hj⟩
    · rintro rfl
      simp [managedOf] at hm
    · intro i' j' hi' hj'
      rw [show m.query.index? (routeBody p) = none from findIdx?_of_not_any hnone] at hi'
      cases hi'

/-- A merge makes both methods of an endpoint current. -/
theorem mergeEndpoint_complete_sample :
    ∃ p' logs, (mergeEndpoint sampleEndpoint none).perform sampleModule = (p', .ok (), logs) ∧
    (∀ x ∈ sampleEndpoint.operations, Current x.1 x.2 (routeBody p')) ∧
    ∃ i j, (Query.function (some "POST")).index? (routeBody p') = some i ∧
      Query.returns.index? (routeBody p') = some j ∧ i < j := by
  have h : (mergeEndpoint sampleEndpoint none).perform sampleModule = (_, .ok (), _) :=
    Edit.perform_of_toBool (by decide +kernel)
  obtain ⟨-, hcurrent, -, hbefore⟩ := mergeEndpoint_complete h
  exact ⟨_, _, h, hcurrent, hbefore "POST" (by decide) (.handler (some "POST")) (by decide)
    (by decide +kernel)⟩

end ApiRoutes.Route
