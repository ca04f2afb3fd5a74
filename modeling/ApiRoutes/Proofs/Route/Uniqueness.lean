import ApiRoutes.Proofs.Route.Run
/-!
# Managed statements are not duplicated

However often endpoints are merged into a module, there is one statement of each kind that they have
where there was none before, and as many as before otherwise (`mergeEndpoints_counts`).
-/
namespace ApiRoutes.Route

open Script

theorem mem_managedBy {e : Spec.Endpoint} {m : Managed} :
    m ∈ managedBy e ↔ m = .collection ∧ e.parameters.isSome = true ∨
      (∃ v ∈ e.verbs, m = .handler (some v) ∨ m = .documentation v) ∨ m = .returns := by
  unfold managedBy managedOf
  cases e.parameters <;> simp

theorem collection_mem_managed {es : List Spec.Endpoint} :
    Managed.collection ∈ es.flatMap managedBy ↔ es.any (·.parameters.isSome) = true := by
  simp [List.mem_flatMap, mem_managedBy]

theorem handler_mem_managed {es : List Spec.Endpoint} {name : Option Text} :
    Managed.handler name ∈ es.flatMap managedBy ↔ name ∈ (es.flatMap Spec.Endpoint.verbs).map some := by
  simp only [List.mem_flatMap, mem_managedBy, List.mem_map]
  constructor
  · rintro ⟨e, he, ⟨h, -⟩ | ⟨v, hv, h | h⟩ | h⟩
    · cases h
    · cases h; exact ⟨v, ⟨e, he, hv⟩, rfl⟩
    · cases h
    · cases h
  · rintro ⟨v, ⟨e, he, hv⟩, rfl⟩
    exact ⟨e, he, .inr (.inl ⟨v, hv, .inl rfl⟩)⟩

theorem documentation_mem_managed {es : List Spec.Endpoint} {verb : Text} :
    Managed.documentation verb ∈ es.flatMap managedBy ↔ verb ∈ es.flatMap Spec.Endpoint.verbs := by
  simp only [List.mem_flatMap, mem_managedBy]
  constructor
  · rintro ⟨e, he, ⟨h, -⟩ | ⟨v, hv, h | h⟩ | h⟩
    · cases h
    · cases h
    · cases h; exact ⟨e, he, hv⟩
    · cases h
  · rintro ⟨e, he, hv⟩
    exact ⟨e, he, .inr (.inl ⟨verb, hv, .inr rfl⟩)⟩

theorem returns_mem_managed {es : List Spec.Endpoint} (hes : es ≠ []) :
    Managed.returns ∈ es.flatMap managedBy := by
  obtain ⟨e, he⟩ := List.exists_mem_of_ne_nil es hes
  exact List.mem_flatMap.2 ⟨e, he, mem_managedBy.2 (.inr (.inr rfl))⟩

/-- A module into which other statements are put has one default export, or as many as before. -/
theorem countP_withRouteBody (body : List Node) (p : Program) :
    (withRouteBody body p).body.countP Query.defaultExport.finds =
      max 1 (p.body.countP Query.defaultExport.finds) := by
  rw [withRouteBody, countP_eq_of_map_eq (map_alterFirst (fun n _ => finds_exporting body n) _)]
  unfold withExport
  split
  · rename_i h
    have : 0 < p.body.countP Query.defaultExport.finds := by
      rw [List.countP_pos_iff]; simpa using h
    omega
  · rename_i h
    rw [List.countP_append, Managed.countP_eq_zero_of_not_any (Bool.eq_false_iff.2 h)]
    rfl

/-- **No managed statement is duplicated.**  After a run of merges there are as many default exports,
returns, functions and documentations of a method, and collections, as there were before, but one
where there was none and an endpoint asks for one; the same is true of the collections in the first
handler of every method. -/
theorem mergeEndpoints_counts {es : List Spec.Endpoint} {path : Option Text} {p p' : Program}
    {logs : List Record} (hes : es ≠ [])
    (h : (mergeEndpoints es path).perform p = (p', .ok (), logs)) :
    p'.body.countP Query.defaultExport.finds = max 1 (p.body.countP Query.defaultExport.finds) ∧
    (routeBody p').countP Query.returns.finds = max 1 ((routeBody p).countP Query.returns.finds) ∧
    (∀ name, (routeBody p').countP (Query.function name).finds =
      if name ∈ (es.flatMap Spec.Endpoint.verbs).map some then
        max 1 ((routeBody p).countP (Query.function name).finds)
      else (routeBody p).countP (Query.function name).finds) ∧
    (∀ verb, (routeBody p').countP (Query.documentation (some verb)).finds =
      if verb ∈ es.flatMap Spec.Endpoint.verbs then
        max 1 ((routeBody p).countP (Query.documentation (some verb)).finds)
      else (routeBody p).countP (Query.documentation (some verb)).finds) ∧
    ((routeBody p').countP declares =
      if es.any (·.parameters.isSome) then max 1 ((routeBody p).countP declares)
      else (routeBody p).countP declares) ∧
    ∀ verb ∈ es.flatMap Spec.Endpoint.verbs,
      (Managed.handlerBody (some verb) (routeBody p')).countP declares =
        max 1 ((Managed.handlerBody (some verb) (routeBody p)).countP declares) := by
  obtain ⟨hp, ms, hs, hms⟩ := mergeEndpoints_takes (Edit.Takes.of_perform h)
  refine ⟨?_, ?_, fun name => ?_, fun verb => ?_, ?_, fun verb hv => ?_⟩
  · obtain ⟨rfl, -⟩ | ⟨-, hp⟩ := hp
    · exact absurd rfl hes
    · rw [hp, countP_withRouteBody]
  · exact (hs.countP .returns).trans (if_pos ((hms _).2 (returns_mem_managed hes)))
  · refine (hs.countP (.handler name)).trans ?_
    simp only [hms, handler_mem_managed]
    rfl
  · refine (hs.countP (.documentation verb)).trans ?_
    simp only [hms, documentation_mem_managed]
    rfl
  · refine (hs.countP .collection).trans ?_
    simp only [hms, collection_mem_managed]
    rfl
  · rw [hs.countP_handlerBody, if_pos]
    exact (hms _).2 (handler_mem_managed.2 (List.mem_map_of_mem hv))

/-- Two merges of an endpoint put one statement of each kind into a module. -/
theorem mergeEndpoints_counts_sample :
    ∃ p' logs, (mergeEndpoints [sampleEndpoint, sampleEndpoint] none).perform sampleModule =
      (p', .ok (), logs) ∧
    (routeBody p').countP Query.returns.finds = 1 ∧
    (routeBody p').countP (Query.function (some "GET")).finds = 1 ∧
    (routeBody p').countP (Query.documentation (some "POST")).finds = 1 ∧
    (routeBody p').countP declares = 1 := by
  have h : (mergeEndpoints [sampleEndpoint, sampleEndpoint] none).perform sampleModule =
      (_, .ok (), _) := Edit.perform_of_toBool (by decide +kernel)
  obtain ⟨-, hreturns, hfunctions, hdocumentation, hcollection, -⟩ :=
    mergeEndpoints_counts (List.cons_ne_nil _ _) h
  refine ⟨_, _, h, ?_, ?_, ?_, ?_⟩
  · exact hreturns.trans (by decide +kernel)
  · exact (hfunctions _).trans (by decide +kernel)
  · exact (hdocumentation _).trans (by decide +kernel)
  · exact hcollection.trans (by decide +kernel)

end ApiRoutes.Route
