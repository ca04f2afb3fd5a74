import ApiRoutes.Proofs.FirstMatch
import ApiRoutes.Route.Parameters
/-!
# Accesses in the object of a handler

What is put into the object of a handler is there, and stays there when other parameters of the same
request are put there (`settled_foldl_putAccess`); putting it there again changes nothing
(`readingMembers_readingMembers`).
-/
namespace ApiRoutes.Route

open Script

/-- What the access to a parameter is found by. -/
def accessQuery (a : Access) : Query := .parameterAccess (.text a.location) (.text a.name)

/-- A property with an access as its value. -/
def readAs (a : Access) (n : Node) : Node :=
  match n.shape with
  | .property k _ shorthand => n.withShape (.property k (.access a) shorthand)
  | _ => n

/-- The node is a property that reads a parameter and goes by its name. -/
def Reads (a : Access) (n : Node) : Prop :=
  ∃ shorthand, n.shape = .property a.name (.access a) shorthand

theorem putAccess_eq (properties : List Node) (a : Access) :
    putAccess properties a =
      putFirst (accessQuery a).finds (readAs a) (Node.property a.name (.access a)) properties :=
  modify_or_append _ (readAs a) _ properties

theorem sameValue_text (t t' : Text) : (Value.text t).sameValue (.text t') = (t == t') := by
  simp [Value.sameValue]

theorem finds_accessQuery {a : Access} {n : Node} :
    (accessQuery a).finds n = true ↔ ∃ b shorthand layout, b.location = a.location ∧
      n.shape = .property a.name (.mk layout (.access b)) shorthand := by
  obtain ⟨l, s⟩ := n
  constructor
  · intro h
    cases s with
    | property k v sh =>
      obtain ⟨lv, sv⟩ := v
      cases sv with
      | access b =>
        simp only [accessQuery, Query.finds, Node.shape, sameValue_text, Bool.and_eq_true,
          beq_iff_eq] at h
        exact ⟨b, sh, lv, h.2, by rw [← h.1]; rfl⟩
      | _ => cases h
    | _ => cases h
  · rintro ⟨b, sh, lv, hl, hs⟩
    cases hs
    simp only [accessQuery, Query.finds, Node.shape, sameValue_text, hl, beq_self_eq_true,
      Bool.and_self]

theorem reads_readAs {a : Access} {n : Node} (h : (accessQuery a).finds n = true) :
    Reads a (readAs a n) := by
  obtain ⟨b, sh, lv, -, hs⟩ := finds_accessQuery.1 h
  obtain ⟨l, s⟩ := n
  cases hs
  exact ⟨sh, rfl⟩

theorem Reads.finds {a : Access} {n : Node} (h : Reads a n) : (accessQuery a).finds n = true := by
  obtain ⟨sh, hs⟩ := h
  exact finds_accessQuery.2 ⟨a, sh, {}, rfl, hs⟩

theorem Reads.readAs_eq {a : Access} {n : Node} (h : Reads a n) : readAs a n = n := by
  obtain ⟨sh, hs⟩ := h
  obtain ⟨l, s⟩ := n
  cases hs
  rfl

/-- Of two accesses of a request that find the same property, one is the other. -/
theorem eq_of_finds {a b : Access} (hr : a.request = b.request) {n : Node}
    (ha : (accessQuery a).finds n = true) (hb : (accessQuery b).finds n = true) : a = b := by
  obtain ⟨c, sh, lv, hl, hs⟩ := finds_accessQuery.1 ha
  obtain ⟨d, sh', lv', hl', hs'⟩ := finds_accessQuery.1 hb
  rw [hs] at hs'
  cases a
  cases b
  cases hs'
  cases hr
  cases hl.symm.trans hl'
  rfl

/-! ## What is put there stays -/

/-- The first property for a parameter reads it. -/
def Settled (a : Access) (properties : List Node) : Prop :=
  ∃ n, properties.find? (accessQuery a).finds = some n ∧ Reads a n

theorem Settled.reads {a : Access} {properties : List Node} (h : Settled a properties) :
    ∃ n ∈ properties, Reads a n := by
  obtain ⟨n, hn, hr⟩ := h
  exact ⟨n, List.mem_of_find?_eq_some hn, hr⟩

theorem settled_putAccess (a : Access) (properties : List Node) :
    Settled a (putAccess properties a) := by
  have hn : Reads a (Node.property a.name (.access a)) := ⟨false, rfl⟩
  have hf := find?_putFirst (p := (accessQuery a).finds)
    (fun x hx => (reads_readAs hx).finds) hn.finds properties
  rw [← putAccess_eq] at hf
  refine ⟨_, hf, ?_⟩
  cases hx : properties.find? (accessQuery a).finds with
  | none => exact hn
  | some x => exact reads_readAs (List.find?_some hx)

theorem Settled.putAccess {a b : Access} (hr : a.request = b.request) {properties : List Node}
    (h : Settled b properties) : Settled b (putAccess properties a) := by
  by_cases hab : a = b
  · rw [hab]
    exact settled_putAccess b properties
  · have hdisjoint : ∀ n, (accessQuery a).finds n = true → (accessQuery b).finds n = false :=
      fun n hn => Bool.eq_false_iff.2 fun hn' => hab (eq_of_finds hr hn hn')
    obtain ⟨n, hn, hb⟩ := h
    refine ⟨n, ?_, hb⟩
    rw [putAccess_eq, find?_putFirst_of_disjoint hdisjoint
      (fun x hx => hdisjoint _ (reads_readAs hx).finds) (hdisjoint _ (Reads.finds ⟨false, rfl⟩)), hn]

/-- **Accesses that are put into an object are there**, all of them at once. -/
theorem settled_foldl_putAccess {request : Text} : ∀ {as : List Access} (properties : List Node),
    (∀ a ∈ as, a.request = request) →
      ∀ a, a ∈ as ∨ a.request = request ∧ Settled a properties →
        Settled a (as.foldl Route.putAccess properties)
  | [], _, _, _, h => (h.resolve_left List.not_mem_nil).2
  | b :: as, properties, hreq, a, h => by
    have hb := hreq b List.mem_cons_self
    refine settled_foldl_putAccess (Route.putAccess properties b)
      (fun c hc => hreq c (List.mem_cons_of_mem _ hc)) a ?_
    rw [List.mem_cons] at h
    obtain (rfl | h) | ⟨hr, h⟩ := h
    · exact .inr ⟨hb, settled_putAccess a properties⟩
    · exact .inl h
    · exact .inr ⟨hr, h.putAccess (hb.trans hr.symm)⟩

theorem Settled.putAccess_eq {a : Access} {properties : List Node} (h : Settled a properties) :
    Route.putAccess properties a = properties := by
  obtain ⟨n, hn, hr⟩ := h
  rw [Route.putAccess_eq, putFirst_of_any (any_of_find? hn)]
  exact alterFirst_of_find? hn hr.readAs_eq

theorem foldl_putAccess_of_settled : ∀ {as : List Access} {properties : List Node},
    (∀ a ∈ as, Settled a properties) → as.foldl putAccess properties = properties
  | [], _, _ => rfl
  | a :: as, properties, h => by
    rw [List.foldl_cons, (h a List.mem_cons_self).putAccess_eq,
      foldl_putAccess_of_settled fun b hb => h b (List.mem_cons_of_mem a hb)]

/-! ## Recognised accesses -/

theorem tagValue_access (key : Text) (a : Access) : tagValue key (.access a) = .access a := rfl

theorem tagValue_cases (key : Text) (value : Node) :
    tagValue key value = value ∨ ∃ a, tagValue key value = .access a := by
  unfold tagValue
  split
  · exact .inl rfl
  · exact .inr ⟨_, rfl⟩
  · exact .inl rfl

theorem tagValue_tagValue (key : Text) (value : Node) :
    tagValue key (tagValue key value) = tagValue key value := by
  obtain h | ⟨a, h⟩ := tagValue_cases key value
  · rw [h, h]
  · rw [h, tagValue_access]

theorem tagProperty_tagProperty (n : Node) : tagProperty (tagProperty n) = tagProperty n := by
  obtain ⟨l, s⟩ := n
  cases s with
  | property key value shorthand =>
    cases shorthand with
    | true => rfl
    | false =>
      change Node.mk l (.property key (tagValue key (tagValue key value)) false) = _
      rw [tagValue_tagValue]
      rfl
  | _ => rfl

theorem tagProperty_of_reads {a : Access} {n : Node} (h : Reads a n) : tagProperty n = n := by
  obtain ⟨sh, hs⟩ := h
  obtain ⟨l, s⟩ := n
  cases hs
  cases sh <;> rfl

theorem tagProperty_putAccess {a : Access} {properties : List Node}
    (h : ∀ n ∈ properties, tagProperty n = n) : ∀ n ∈ putAccess properties a, tagProperty n = n := by
  intro n hn
  rw [putAccess_eq, putFirst] at hn
  split at hn
  · obtain ⟨m, hm, rfl | ⟨hf, rfl⟩⟩ := mem_alterFirst hn
    · exact h n hm
    · exact tagProperty_of_reads (reads_readAs hf)
  · rw [List.mem_append, List.mem_singleton] at hn
    obtain hn | rfl := hn
    · exact h n hn
    · rfl

theorem tagProperty_foldl_putAccess : ∀ {as : List Access} {properties : List Node},
    (∀ n ∈ properties, tagProperty n = n) →
      ∀ n ∈ as.foldl putAccess properties, tagProperty n = n
  | [], _, h => h
  | a :: as, properties, h => by
    rw [List.foldl_cons]
    exact tagProperty_foldl_putAccess (tagProperty_putAccess h)

/-- The members of an object with accesses put into it. -/
def readingMembers (accesses : List Access) (members : List Node) : List Node :=
  accesses.foldl putAccess (members.map tagProperty)

theorem map_tagProperty_readingMembers (accesses : List Access) (members : List Node) :
    (readingMembers accesses members).map tagProperty = readingMembers accesses members := by
  conv => rhs; rw [← List.map_id (readingMembers accesses members)]
  refine List.map_congr_left fun n hn => tagProperty_foldl_putAccess (fun m hm => ?_) n hn
  obtain ⟨m', -, rfl⟩ := List.mem_map.1 hm
  exact tagProperty_tagProperty m'

/-- **Putting accesses into an object again** changes nothing. -/
theorem readingMembers_readingMembers {request : Text} {accesses : List Access}
    (h : ∀ a ∈ accesses, a.request = request) (members : List Node) :
    readingMembers accesses (readingMembers accesses members) = readingMembers accesses members := by
  conv => lhs; rw [readingMembers, map_tagProperty_readingMembers]
  exact foldl_putAccess_of_settled fun a ha => settled_foldl_putAccess _ h a (.inl ha)

theorem mapM_accessTo {request : Text} : ∀ {ps : List Spec.Parameter} {accesses : List Access},
    ps.mapM (accessTo request) = .ok accesses →
      accesses = ps.map fun p => ⟨request, p.location, p.name⟩
  | [], _, h => by cases h; rfl
  | p :: ps, accesses, h => by
    rw [List.mapM_cons] at h
    unfold accessTo at h
    split at h
    · cases hm : ps.mapM (accessTo request) with
      | error x => unfold accessTo at hm; rw [hm] at h; cases h
      | ok rest =>
        have hrest := mapM_accessTo hm
        unfold accessTo at hm
        rw [hm] at h
        cases h
        rw [hrest]
        rfl
    · cases h

end ApiRoutes.Route
