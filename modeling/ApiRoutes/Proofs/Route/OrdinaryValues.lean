import ApiRoutes.Proofs.Route.EndpointParameters
/-!
# Ordinary values

Values without bytes and sets in them (`Value.isOrdinary`): nothing, truth values, numbers, texts, days and
moments, and lists and mappings of these.  All that a merge writes of an endpoint with ordinary values has
literals, the fields of its parameters (`exists_fields`) and the documentation of its operations
(`exists_documentation`).
-/
namespace ApiRoutes

namespace Value

mutual

/-- Is the value one without bytes and sets in it? -/
def isOrdinary : Value → Bool
  | .bytes _ | .set _ => false
  | .list items => areOrdinary items
  | .map entries => haveOrdinary entries
  | _ => true

def areOrdinary : List Value → Bool
  | [] => true
  | v :: vs => isOrdinary v && areOrdinary vs

def haveOrdinary : Entries → Bool
  | [] => true
  | (k, v) :: es => isOrdinary k && isOrdinary v && haveOrdinary es

end

theorem exists_interchangeKey {k : Value} (h : k.isOrdinary = true) : ∃ t, k.interchangeKey = .ok t := by
  cases k with
  | bytes bs => cases h
  | _ => exact ⟨_, rfl⟩

mutual

/-- **An ordinary value has an interchange form.** -/
theorem exists_interchange : ∀ {v : Value}, v.isOrdinary = true → ∃ w, v.interchange = .ok w
  | .null, _ | .bool _, _ | .int _, _ | .text _, _ | .date _, _ | .dateTime _, _ => ⟨_, by rw [interchange]; rfl⟩
  | .float x, _ => by
    unfold interchange
    exact ⟨_, rfl⟩
  | .list vs, h => by
    obtain ⟨ws, hws⟩ := exists_interchangeItems (show areOrdinary vs = true by rwa [isOrdinary] at h)
    exact ⟨.list ws, by rw [interchange, hws]; rfl⟩
  | .map es, h => by
    obtain ⟨fs, hfs⟩ := exists_interchangeEntries (show haveOrdinary es = true by rwa [isOrdinary] at h)
    exact ⟨.map (ofEntries fs), by rw [interchange, hfs]; rfl⟩

theorem exists_interchangeItems : ∀ {vs : List Value}, areOrdinary vs = true → ∃ ws, interchangeItems vs = .ok ws
  | [], _ => ⟨[], rfl⟩
  | v :: vs, h => by
    rw [areOrdinary, Bool.and_eq_true] at h
    obtain ⟨w, hw⟩ := exists_interchange h.1
    obtain ⟨ws, hws⟩ := exists_interchangeItems h.2
    exact ⟨w :: ws, by rw [interchangeItems, hw, hws]; rfl⟩

theorem exists_interchangeEntries : ∀ {es : Entries}, haveOrdinary es = true → ∃ fs, interchangeEntries es = .ok fs
  | [], _ => ⟨[], rfl⟩
  | (k, v) :: es, h => by
    rw [haveOrdinary, Bool.and_eq_true, Bool.and_eq_true] at h
    obtain ⟨t, ht⟩ := exists_interchangeKey h.1.1
    obtain ⟨w, hw⟩ := exists_interchange h.1.2
    obtain ⟨fs, hfs⟩ := exists_interchangeEntries h.2
    exact ⟨(.text t, w) :: fs, by rw [interchangeEntries, ht, hw, hfs]; rfl⟩

end

end Value

namespace Route

open Script

mutual

/-- **An ordinary value has a literal.** -/
theorem hasLiteral_of_isOrdinary : ∀ {v : Value}, v.isOrdinary = true → HasLiteral v
  | .null, _ | .bool _, _ | .int _, _ | .float _, _ | .text _, _ | .date _, _ | .dateTime _, _ =>
    ⟨_, by rw [Node.ofValue]; rfl⟩
  | .list vs, h => by
    obtain ⟨ns, hns⟩ := exists_ofItems (hasLiteral_of_areOrdinary (by rwa [Value.isOrdinary] at h))
    exact ⟨.array ns, by rw [Node.ofValue, hns]; rfl⟩
  | .map es, h => hasLiteral_map (hasLiteral_of_haveOrdinary (by rwa [Value.isOrdinary] at h))

theorem hasLiteral_of_areOrdinary : ∀ {vs : List Value}, Value.areOrdinary vs = true → ∀ v ∈ vs, HasLiteral v
  | [], _ => fun _ hv => absurd hv List.not_mem_nil
  | v :: vs, h => by
    rw [Value.areOrdinary, Bool.and_eq_true] at h
    exact List.forall_mem_cons.2 ⟨hasLiteral_of_isOrdinary h.1, hasLiteral_of_areOrdinary h.2⟩

theorem hasLiteral_of_haveOrdinary : ∀ {es : Entries}, Value.haveOrdinary es = true → ∀ e ∈ es, HasLiteral e.2
  | [], _ => fun _ he => absurd he List.not_mem_nil
  | (k, v) :: es, h => by
    rw [Value.haveOrdinary, Bool.and_eq_true, Bool.and_eq_true] at h
    exact List.forall_mem_cons.2 ⟨hasLiteral_of_isOrdinary h.1.2, hasLiteral_of_haveOrdinary h.2⟩

end

end Route

/-! ## Endpoints -/

namespace Spec

/-- Are the fields beyond the known ones ordinary? -/
def othersOrdinary (others : List (Text × Value)) : Bool := others.all (·.2.isOrdinary)

/-- Are all fields of the operation ordinary, as the document has them or else as the model does? -/
def Operation.isOrdinary (o : Operation) : Bool :=
  if o.document.isEmpty then o.parameters.all (fun p => othersOrdinary p.others) && othersOrdinary o.others
  else Value.haveOrdinary o.document

/-- Does the endpoint hold ordinary values only, in the fields of its own parameters and in its operations? -/
def Endpoint.isOrdinary (e : Endpoint) : Bool :=
  (e.parameters.getD []).all (fun p => othersOrdinary p.others) && e.operations.all (·.2.isOrdinary)

theorem exists_interchange_others {others : List (Text × Value)} (h : othersOrdinary others = true) :
    ∃ es, others.mapM (fun (k, v) => return (Value.text k, ← v.interchange)) = (.ok es : Outcome Entries) :=
  exists_mapM_ok.2 fun (k, v) hx => by
    obtain ⟨w, hw⟩ := Value.exists_interchange (List.all_eq_true.1 h (k, v) hx)
    exact ⟨(.text k, w), bind_eq_ok.2 ⟨w, hw, rfl⟩⟩

/-- **A parameter with ordinary values has fields to give.** -/
theorem Parameter.exists_fields {p : Parameter} (h : othersOrdinary p.others = true) :
    ∃ fields, p.fields = .ok fields := by
  obtain ⟨es, hes⟩ := exists_interchange_others h
  exact ⟨_, bind_eq_ok.2 ⟨es, hes, rfl⟩⟩

theorem exists_mapM_fields {ps : List Parameter} (h : ps.all (fun p => othersOrdinary p.others) = true) :
    ∃ vs, ps.mapM (fun p => return Value.map (← p.fields)) = (.ok vs : Outcome (List Value)) ∧
      ∀ v ∈ vs, Route.HasLiteral v := by
  obtain ⟨vs, hvs⟩ : ∃ vs, ps.mapM (fun p => return Value.map (← p.fields)) = (.ok vs : Outcome (List Value)) :=
    exists_mapM_ok.2 fun p hp => by
      obtain ⟨fields, hf⟩ := Parameter.exists_fields (List.all_eq_true.1 h p hp)
      exact ⟨.map fields, by rw [hf]; rfl⟩
  refine ⟨vs, hvs, fun v hv => ?_⟩
  obtain ⟨p, -, hp⟩ := exists_of_forall₂ (mapM_eq_ok.1 hvs) hv
  obtain ⟨fields, hf, hp⟩ := bind_eq_ok.1 hp
  cases hp
  exact Route.hasLiteral_map (Route.hasLiteral_fields hf)

/-- The fields of an operation with ordinary values can be given, and each has a literal. -/
theorem Operation.exists_fields {o : Operation} (hp : o.parameters.all (fun p => othersOrdinary p.others) = true)
    (ho : othersOrdinary o.others = true) :
    ∃ fields, o.fields = .ok fields ∧ ∀ e ∈ fields, Route.HasLiteral e.2 := by
  obtain ⟨es, hes⟩ := exists_interchange_others ho
  have hothers := Route.hasLiteral_mapM hes
  obtain ⟨list, hlist, hliterals⟩ : ∃ list : Option (List Value), (o.parameterList.mapM fun ps =>
      ps.mapM fun p => return Value.map (← p.fields)) = (.ok list : Outcome _) ∧
        ∀ vs ∈ list, ∀ v ∈ vs, Route.HasLiteral v := by
    rw [Operation.parameters] at hp
    cases hl : o.parameterList with
    | none => exact ⟨none, rfl, fun vs hvs => nomatch hvs⟩
    | some ps =>
      rw [hl, Option.getD_some] at hp
      obtain ⟨vs, hvs, hv⟩ := exists_mapM_fields hp
      refine ⟨some vs, ?_, fun ws hws => Option.mem_some.1 hws ▸ hv⟩
      rw [Option.mapM_some, hvs]
      rfl
  refine ⟨_, bind_eq_ok.2 ⟨list, hlist, bind_eq_ok.2 ⟨es, hes, rfl⟩⟩, fun e he => ?_⟩
  simp only [List.mem_append, Option.mem_toList, Option.map_eq_some_iff] at he
  obtain ((⟨t, -, rfl⟩ | ⟨t, -, rfl⟩) | ⟨vs, hvs, rfl⟩) | he := he
  · exact ⟨_, rfl⟩
  · cases t <;> exact ⟨_, rfl⟩
  · obtain ⟨ns, hns⟩ := Route.exists_ofItems (hliterals vs hvs)
    exact ⟨.array ns, by rw [Script.Node.ofValue, hns]; rfl⟩
  · exact hothers e he

/-- **An operation with ordinary values has a documentation that a literal is written for.** -/
theorem Operation.exists_documentation {o : Operation} (h : o.isOrdinary = true) :
    ∃ entries value, o.documentation = .ok entries ∧ Script.Node.ofValue (.map entries) = .ok value := by
  rw [Operation.isOrdinary] at h
  rw [Operation.documentation]
  split at h
  · rename_i hd
    rw [Bool.and_eq_true] at h
    obtain ⟨fields, hf, hl⟩ := Operation.exists_fields h.1 h.2
    obtain ⟨value, hv⟩ := Route.hasLiteral_map hl
    exact ⟨fields, value, by rw [if_pos hd, hf], hv⟩
  · rename_i hd
    obtain ⟨value, hv⟩ := Route.hasLiteral_map (Route.hasLiteral_of_haveOrdinary h)
    exact ⟨o.document, value, if_neg hd, hv⟩

end Spec

end ApiRoutes
