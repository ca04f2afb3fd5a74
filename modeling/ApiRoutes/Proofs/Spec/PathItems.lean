import ApiRoutes.Proofs.Spec.Reduction
/-!
# Path items

What an endpoint takes from the entries of its path item (`ofItem_spec`): the first entry of every method, in the
order in which the methods first occur, and the parameters.  All other entries could as well not be there
(`ofItem_congr`, `ofItem_repeated`).
-/
namespace ApiRoutes.Spec

/-- The method that a key of a path item names, whatever the case of its letters. -/
def methodOf? (key : Text) : Option Text :=
  if httpMethods.any fun m => Text.toLower key == m then some (Text.toUpper (Text.toLower key)) else none

/-- Does an endpoint take something from the entry, going by its key? -/
def isTaken (x : Text × Value) : Bool := x.1 == "parameters" || (methodOf? x.1).isSome

/-- The methods that the entries of a path item name. -/
def methodsOf (item : List (Text × Value)) : List Text := item.filterMap fun x => methodOf? x.1

/-! ## One entry -/

/-- The endpoint after an entry of its path item, without what is logged. -/
def takeEntry (e : Endpoint) (x : Text × Value) : Outcome Endpoint :=
  if x.1 = "parameters" then (endpointParameters x.2).map fun ps => { e with parameters := some ps }
  else match methodOf? x.1 with
    | none => .ok e
    | some method =>
      if h : e.operations.any fun o => o.1 == method then .ok e
      else (fitting none "Operation" (Operation.ofDocument (orEmpty x.2))).map fun o => e.add method o h

/-- The entries of a path item are taken one after the other. -/
theorem takeEntries_eq : ∀ (item : List (Text × Value)) (e : Endpoint),
    (takeEntries e item).2 = item.foldlM takeEntry e
  | [], _ => rfl
  | (key, value) :: rest, e => by
    rw [List.foldlM_cons, takeEntries, takeEntry]
    by_cases hp : key = "parameters"
    · rw [if_pos hp, if_pos hp]
      cases endpointParameters value with
      | error f => rfl
      | ok ps => exact takeEntries_eq rest _
    · rw [if_neg hp, if_neg hp, methodOf?]
      dsimp only
      by_cases hm : (httpMethods.any fun m => Text.toLower key == m) = true
      · rw [hm, Bool.not_true, if_neg (by simp), if_pos rfl]
        dsimp only
        split
        · exact takeEntries_eq rest e
        · cases fitting none "Operation" (Operation.ofDocument (orEmpty value)) with
          | error f => rfl
          | ok o => exact takeEntries_eq rest _
      · rw [Bool.eq_false_iff.2 hm]
        exact takeEntries_eq rest e

theorem takeEntry_of_not_isTaken {e : Endpoint} {x : Text × Value} (h : isTaken x = false) :
    takeEntry e x = .ok e := by
  rw [isTaken, Bool.or_eq_false_iff, beq_eq_false_iff_ne, Option.isSome_eq_false_iff, Option.isNone_iff_eq_none] at h
  rw [takeEntry, if_neg h.1, h.2]

theorem ne_parameters_of_methodOf? {key m : Text} (h : methodOf? key = some m) : key ≠ "parameters" := by
  rintro rfl
  cases h

/-- **What an entry that is taken does**: it gives the parameters, or nothing, or an operation of a new method. -/
theorem takeEntry_cases {e e' : Endpoint} {x : Text × Value} (h : takeEntry e x = .ok e') :
    (x.1 = "parameters" ∧ ∃ ps, endpointParameters x.2 = .ok ps ∧ e' = { e with parameters := some ps }) ∨
    (x.1 ≠ "parameters" ∧ (∀ m, methodOf? x.1 = some m → (e.operations.any fun o => o.1 == m) = true) ∧ e' = e) ∨
    ∃ m o hm, methodOf? x.1 = some m ∧ Operation.ofDocument (orEmpty x.2) = .ok o ∧ e' = e.add m o hm := by
  rw [takeEntry] at h
  split at h
  · rename_i hp
    cases hps : endpointParameters x.2 with
    | error f =>
      rw [hps] at h
      cases h
    | ok ps =>
      rw [hps] at h
      cases h
      exact .inl ⟨hp, ps, rfl, rfl⟩
  · rename_i hp
    split at h
    · rename_i hm
      cases h
      exact .inr (.inl ⟨hp, fun m hm' => (by rw [hm] at hm'; cases hm'), rfl⟩)
    · rename_i method hm
      split at h
      · rename_i hany
        cases h
        exact .inr (.inl ⟨hp, fun m hm' => by rwa [Option.some.inj (hm'.symm.trans hm)], rfl⟩)
      · rename_i hany
        cases ho : fitting none "Operation" (Operation.ofDocument (orEmpty x.2)) with
        | error f =>
          rw [ho] at h
          cases h
        | ok o =>
          rw [ho] at h
          cases h
          exact .inr (.inr ⟨method, o, hany, hm, fitting_eq_ok.1 ho, rfl⟩)

/-- **Entries with other keys change nothing.** -/
theorem foldlM_takeEntry_filter : ∀ (item : List (Text × Value)) (e : Endpoint),
    (item.filter isTaken).foldlM takeEntry e = item.foldlM takeEntry e
  | [], _ => rfl
  | x :: rest, e => by
    by_cases hx : isTaken x = true
    · rw [List.filter_cons_of_pos hx, List.foldlM_cons, List.foldlM_cons]
      exact congrArg (takeEntry e x >>= ·) (funext (foldlM_takeEntry_filter rest))
    · rw [List.filter_cons_of_neg hx, foldlM_takeEntry_filter rest, List.foldlM_cons,
        takeEntry_of_not_isTaken (Bool.eq_false_iff.2 hx)]
      rfl

/-! ## The operation of a method -/

/-- **What an operation says of itself** is the value it was read from, as it is written there. -/
theorem documentation_ofDocument {v : Value} {o : Operation} (h : Operation.ofDocument (orEmpty v) = .ok o) :
    if v.isTruthy then ∃ entries, v = .map entries ∧ o.documentation = .ok entries
    else o = {} ∧ o.documentation = .ok [] := by
  rw [orEmpty] at h
  split
  · rename_i hv
    rw [if_pos hv] at h
    obtain ⟨o₀, ho₀, hend⟩ := bind_eq_ok.1 h
    cases v with
    | map entries =>
      cases hend
      rw [Value.isTruthy, Bool.not_eq_true'] at hv
      exact ⟨entries, rfl, by rw [Operation.documentation, hv, if_neg (by simp)]⟩
    | _ => cases ho₀
  · rename_i hv
    rw [if_neg hv] at h
    cases h
    exact ⟨rfl, rfl⟩

/-! ## A whole path item -/

section Item

variable {path : Text} {item pre post : List (Text × Value)} {x : Text × Value} {e e' : Endpoint}

theorem ofItem_eq (path : Text) (item : List (Text × Value)) :
    (Endpoint.ofItem path item).2 = item.foldlM takeEntry { path } := takeEntries_eq item _

/-- **An endpoint is made of the entries that it takes.**  All others can be anywhere, or nowhere. -/
theorem ofItem_congr {item' : List (Text × Value)} (h : item'.filter isTaken = item.filter isTaken) :
    (Endpoint.ofItem path item').2 = (Endpoint.ofItem path item).2 := by
  rw [ofItem_eq, ofItem_eq, ← foldlM_takeEntry_filter, h, foldlM_takeEntry_filter]

/-- What an endpoint has after some entries of its path item. -/
structure TakenFrom (item : List (Text × Value)) (e : Endpoint) : Prop where
  /-- The methods stand in the order in which they first occur. -/
  verbs : e.verbs = (methodsOf item).eraseDups
  /-- The operation of a method is that of the first entry that names it. -/
  operations : ∀ m o, (m, o) ∈ e.operations → ∃ k v,
    item.find? (fun x => methodOf? x.1 == some m) = some (k, v) ∧ Operation.ofDocument (orEmpty v) = .ok o
  /-- There are parameters where the path item has them. -/
  parameters : e.parameters = none ↔ ∀ x ∈ item, x.1 ≠ "parameters"

theorem mem_methodsOf {m : Text} : m ∈ methodsOf item ↔ ∃ x ∈ item, methodOf? x.1 = some m := List.mem_filterMap

theorem methodsOf_concat (item : List (Text × Value)) (x : Text × Value) :
    methodsOf (item ++ [x]) = methodsOf item ++ (methodOf? x.1).toList := by
  rw [methodsOf, List.filterMap_append, List.filterMap_cons]
  cases methodOf? x.1 <;> rfl

theorem TakenFrom.mem_verbs (h : TakenFrom item e) {m : Text} :
    (e.operations.any fun o => o.1 == m) = true ↔ m ∈ methodsOf item := by
  rw [← List.mem_eraseDups, ← h.verbs, Endpoint.verbs, List.any_eq_true, List.mem_map]
  simp only [beq_iff_eq]

/-- The operations there are stay those of the first entries. -/
theorem TakenFrom.operations_concat (h : TakenFrom item e) (x : Text × Value) (m : Text) (o : Operation)
    (hm : (m, o) ∈ e.operations) : ∃ k v,
      (item ++ [x]).find? (fun x => methodOf? x.1 == some m) = some (k, v) ∧
        Operation.ofDocument (orEmpty v) = .ok o := by
  obtain ⟨k, v, hf, ho⟩ := h.operations m o hm
  exact ⟨k, v, by rw [List.find?_append, hf, Option.some_or], ho⟩

/-- **What one more entry gives.** -/
theorem TakenFrom.takeEntry (h : TakenFrom item e) (hx : takeEntry e x = .ok e') : TakenFrom (item ++ [x]) e' := by
  have hparams : x.1 ≠ "parameters" → (e.parameters = none ↔ ∀ y ∈ item ++ [x], y.1 ≠ "parameters") := fun hp => by
    rw [h.parameters]
    simp [hp, or_imp, forall_and]
  obtain ⟨hp, ps, -, rfl⟩ | ⟨hp, hold, rfl⟩ | ⟨m, o, hany, hm, ho, rfl⟩ := takeEntry_cases hx
  · refine ⟨?_, h.operations_concat x, ⟨fun hn => (by cases hn), fun hall => absurd hp (hall x (by simp))⟩⟩
    rw [methodsOf_concat, hp]
    exact h.verbs.trans (by rw [show methodOf? "parameters" = none from rfl, Option.toList_none, List.append_nil])
  · refine ⟨?_, h.operations_concat x, hparams hp⟩
    rw [methodsOf_concat]
    cases hm : methodOf? x.1 with
    | none => rw [Option.toList_none, List.append_nil, h.verbs]
    | some m =>
      have hmem := h.mem_verbs.1 (hold m hm)
      rw [List.eraseDups_append, h.verbs]
      simp [hmem, List.removeAll]
  · have hnew : m ∉ methodsOf item := fun hmem => hany (h.mem_verbs.2 hmem)
    refine ⟨?_, fun m' o' hmem => ?_, hparams (ne_parameters_of_methodOf? hm)⟩
    · rw [methodsOf_concat, hm, List.eraseDups_append, ← h.verbs]
      simp [hnew, List.removeAll, List.eraseDups_cons, Endpoint.verbs, Endpoint.add]
    · obtain hmem | hmem := List.mem_append.1 hmem
      · exact h.operations_concat x m' o' hmem
      · cases List.mem_singleton.1 hmem
        refine ⟨x.1, x.2, ?_, ho⟩
        rw [List.find?_append, List.find?_eq_none.2, Option.none_or, List.find?_cons_of_pos (by simp [hm])]
        intro y hy hym
        exact hnew (mem_methodsOf.2 ⟨y, hy, eq_of_beq hym⟩)

theorem takenFrom_foldlM : ∀ {rest : List (Text × Value)} {item : List (Text × Value)} {e e' : Endpoint},
    TakenFrom item e → rest.foldlM takeEntry e = .ok e' → TakenFrom (item ++ rest) e'
  | [], item, _, _, h, hr => by
    cases hr
    rwa [List.append_nil]
  -- The entries taken so far are `item`; one more of them leads from one endpoint to the next.
  | x :: rest, item, _, _, h, hr => by
    rw [List.foldlM_cons] at hr
    obtain ⟨e₁, hx, hr⟩ := bind_eq_ok.1 hr
    have hrest := takenFrom_foldlM (h.takeEntry hx) hr
    rwa [List.append_assoc, List.singleton_append] at hrest

/-- **What an endpoint takes from its path item.** -/
theorem takenFrom_ofItem (h : (Endpoint.ofItem path item).2 = .ok e) : TakenFrom item e := by
  rw [ofItem_eq] at h
  have hstart : TakenFrom [] ({ path } : Endpoint) :=
    ⟨rfl, fun m o hm => absurd hm List.not_mem_nil, by simp⟩
  exact takenFrom_foldlM hstart h

/-- **An entry whose method occurs before it is not looked at.** -/
theorem ofItem_repeated {m : Text} (hm : methodOf? x.1 = some m) (hpre : m ∈ methodsOf pre) :
    (Endpoint.ofItem path (pre ++ x :: post)).2 = (Endpoint.ofItem path (pre ++ post)).2 := by
  rw [ofItem_eq, ofItem_eq, List.foldlM_append, List.foldlM_append]
  -- Where an entry before it is wrong, neither list gives an endpoint.
  cases hr : pre.foldlM takeEntry ({ path } : Endpoint) with
  | error f => rfl
  | ok e =>
    have htaken : TakenFrom pre e := takenFrom_ofItem ((ofItem_eq path pre).trans hr)
    have hx : takeEntry e x = .ok e := by
      rw [takeEntry, if_neg (ne_parameters_of_methodOf? hm), hm]
      exact dif_pos (htaken.mem_verbs.2 hpre)
    change (takeEntry e x >>= fun e => post.foldlM takeEntry e) = _
    rw [hx]

end Item

/-! ## Endpoints -/

theorem isMethod_of_methodOf? {key m : Text} (h : methodOf? key = some m) :
    ∃ w ∈ httpMethods, m = Text.toUpper w := by
  unfold methodOf? at h
  split at h
  · rename_i hany
    obtain ⟨w, hw, hkey⟩ := List.any_eq_true.1 hany
    cases h
    exact ⟨w, hw, congrArg Text.toUpper (eq_of_beq hkey)⟩
  · cases h

/-- What an endpoint is made of. -/
structure MadeFrom (path : Text) (item : List (Text × Value)) (e : Endpoint) : Prop where
  distinct : e.verbs.Nodup
  /-- The methods are in capital letters, -/
  capital : ∀ m ∈ e.verbs, ∃ w ∈ httpMethods, m = Text.toUpper w
  /-- in the order in which the keys first name them. -/
  verbs : e.verbs = (methodsOf item).eraseDups
  /-- The operation of a method is read from the first entry that names it, and says what is written there. -/
  operations : ∀ m o, (m, o) ∈ e.operations → ∃ k v,
    item.find? (fun x => methodOf? x.1 == some m) = some (k, v) ∧ Operation.ofDocument (orEmpty v) = .ok o ∧
      if v.isTruthy then ∃ entries, v = .map entries ∧ o.documentation = .ok entries
      else o = {} ∧ o.documentation = .ok []
  /-- Whatever is at a key whose method occurs before it, the endpoint is the same. -/
  repeated : ∀ pre k v post m, item = pre ++ (k, v) :: post → methodOf? k = some m → m ∈ methodsOf pre →
    ∀ v', (Endpoint.ofItem path (pre ++ (k, v') :: post)).2 = .ok e
  parameters : e.parameters = none ↔ ∀ x ∈ item, x.1 ≠ "parameters"
  /-- Other keys can come and go. -/
  others : ∀ item', item'.filter isTaken = item.filter isTaken → (Endpoint.ofItem path item').2 = .ok e

/-- **From path item to endpoint.** -/
theorem ofItem_madeFrom {path : Text} {item : List (Text × Value)} {e : Endpoint}
    (h : (Endpoint.ofItem path item).2 = .ok e) : MadeFrom path item e := by
  have ht := takenFrom_ofItem h
  refine ⟨e.distinct, fun m hm => ?_, ht.verbs, fun m o hm => ?_, ?_, ht.parameters, fun item' hi => ?_⟩
  · rw [ht.verbs, List.mem_eraseDups, mem_methodsOf] at hm
    obtain ⟨x, -, hx⟩ := hm
    exact isMethod_of_methodOf? hx
  · obtain ⟨k, v, hf, ho⟩ := ht.operations m o hm
    exact ⟨k, v, hf, ho, documentation_ofDocument ho⟩
  · rintro pre k v post m rfl hm hpre v'
    rw [ofItem_repeated hm hpre] at h ⊢
    exact h
  · rw [ofItem_congr hi, h]

/-- A path item with a method twice, whose second value is none of an operation, and with other keys. -/
def repeatingItem : List (Text × Value) := [
  ("x-internal", .bool true),
  ("Get", .map [(.text "tags", .list [.text "pets"]), (.text "summary", .text "List")]),
  ("delete", .null),
  ("parameters", .list []),
  ("GET", .int 5)]

/-- The second value of a method is not looked at. -/
theorem ofItem_madeFrom_repeating : ∃ e, (Endpoint.ofItem "/pets" repeatingItem).2 = .ok e ∧
    MadeFrom "/pets" repeatingItem e ∧ e.verbs = ["GET", "DELETE"] := by
  have hok : (Endpoint.ofItem "/pets" repeatingItem).2.toBool = true := by decide +kernel
  cases h : (Endpoint.ofItem "/pets" repeatingItem).2 with
  | error f =>
    rw [h] at hok
    cases hok
  | ok e => exact ⟨e, rfl, ofItem_madeFrom h, (ofItem_madeFrom h).verbs.trans (by decide)⟩

end ApiRoutes.Spec
