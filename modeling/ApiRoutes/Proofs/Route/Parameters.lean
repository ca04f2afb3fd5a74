import ApiRoutes.Proofs.Edit
import ApiRoutes.Proofs.Route.Accesses
import ApiRoutes.Proofs.Route.Collection
/-!
# Merges of parameters

What an edit of parameters makes of statements and of a handler: `declare` with a collection whose
members are the old ones, changed and continued.
-/
namespace ApiRoutes.Route

open Script

/-! ## The collection of a list of statements -/

/-- The collection of the kind that statements have, or else an empty one. -/
def collectionNode (k : Collection) (body : List Node) : Node :=
  match (declaration? body).bind (·.init) with
  | some c => if (k.members? c).isSome then c else k.empty
  | none => k.empty

/-- Its members. -/
def membersOf (k : Collection) (body : List Node) : List Node :=
  (k.members? (collectionNode k body)).getD []

theorem members?_empty (k : Collection) : k.members? k.empty = some [] := by cases k <;> rfl

theorem members?_collectionNode (k : Collection) (body : List Node) :
    k.members? (collectionNode k body) = some (membersOf k body) := by
  have h : (k.members? (collectionNode k body)).isSome = true := by
    unfold collectionNode
    split
    · split
      · assumption
      · rw [members?_empty]; rfl
    · rw [members?_empty]; rfl
  obtain ⟨ms, hms⟩ := Option.isSome_iff_exists.1 h
  rw [membersOf, hms]
  rfl

theorem collectionOf_eq (k : Collection) (body : List Node) : collectionOf k body = membersOf k body := by
  unfold collectionOf membersOf collectionNode
  cases (declaration? body).bind (·.init) with
  | none => rw [members?_empty]; rfl
  | some c =>
    dsimp only
    rw [Option.bind_some]
    cases hc : k.members? c with
    | none => rw [if_neg (by simp), members?_empty]; rfl
    | some ms => rw [if_pos (by rfl), hc]

theorem members?_withMembers {k : Collection} {c : Node} {ms : List Node}
    (h : k.members? c = some ms) (ms' : List Node) :
    k.members? (Collection.withMembers ms' c) = some ms' := by
  obtain ⟨l, s⟩ := c
  cases k <;> cases s <;> cases h <;> rfl

theorem collectionNode_of_init {k : Collection} {body : List Node} {c : Node} {ms : List Node}
    (h : (declaration? body).bind (·.init) = some c) (hc : k.members? c = some ms) :
    collectionNode k body = c := by
  rw [collectionNode, h]
  exact if_pos (by rw [hc]; rfl)

theorem collectionNode_declare {k : Collection} {c : Node} {ms : List Node}
    (hc : k.members? c = some ms) (body : List Node) : collectionNode k (declare c body) = c :=
  collectionNode_of_init (init_declare c body) hc

theorem membersOf_declare {k : Collection} {c : Node} {ms : List Node}
    (hc : k.members? c = some ms) (body : List Node) : membersOf k (declare c body) = ms := by
  rw [membersOf, collectionNode_declare hc, hc]
  rfl

/-- **A collection that is made sure of is there.** -/
theorem ensureCollection_run (k : Collection) (body : List Node) (l : List Record) :
    ∃ l', (ensureCollection k).runFrom body l =
      ((.ok (), declare (collectionNode k body) body), l') := by
  unfold ensureCollection
  rw [Edit.runFrom_bind, Edit.runFrom_get]
  dsimp only
  cases hd : declaration? body with
  | none =>
    have ha : body.any declares = false := by rw [← declaration?_isSome, hd]; rfl
    rw [declare_of_not_any ha, collectionNode, hd]
    exact ⟨l, rfl⟩
  | some d =>
    have ha : body.any declares = true := by rw [← declaration?_isSome, hd]; rfl
    dsimp only
    cases hm : d.init.bind k.members? with
    | none =>
      have hc : collectionNode k body = k.empty := by
        rw [collectionNode, hd]
        cases hi : d.init with
        | none => simp [hi]
        | some c =>
          rw [hi] at hm
          simp only [Option.bind_some, hi]
          exact if_neg (by rw [show k.members? c = none from hm]; simp)
      rw [hc, declare_of_any ha]
      exact ⟨_, rfl⟩
    | some ms =>
      obtain ⟨c, hi, hc⟩ := Option.bind_eq_some_iff.1 hm
      have hb : (declaration? body).bind (·.init) = some c := by rw [hd]; exact hi
      rw [collectionNode_of_init hb hc, declare_of_init hb]
      exact ⟨l, rfl⟩

theorem collectionOf_declare (k : Collection) (c : Node) (body : List Node) :
    collectionOf k (declare c body) = (k.members? c).getD [] := by
  rw [collectionOf, init_declare]
  rfl

theorem withCollection_declare (ms : List Node) (c : Node) (body : List Node) :
    withCollection ms (declare c body) = declare (Collection.withMembers ms c) body := by
  rw [← declare_declare c (Collection.withMembers ms c) body, declare_of_any (any_declare c body)]
  refine mapVariable_congr fun d hd => ?_
  have h := init_declare c body
  rw [hd, Option.bind_some] at h
  rw [initialised, h]
  rfl

/-! ## The merges -/

/-- **Parameters of an endpoint** change the array of the statements and nothing else. -/
theorem mergeEndpointParameters_run (ps : List Spec.Parameter) (body : List Node) (l : List Record) :
    ∃ l', (mergeEndpointParameters ps).runFrom body l =
      let r := (ps.forM putParameter).runFrom (membersOf .array body) l'
      ((r.1.1, declare (Collection.withMembers r.1.2 (collectionNode .array body)) body), r.2) := by
  obtain ⟨l', h⟩ := ensureCollection_run .array body l
  refine ⟨l', ?_⟩
  unfold mergeEndpointParameters
  rw [Edit.runFrom_bind, h]
  dsimp only
  rw [Edit.runFrom_onPart, collectionOf_declare, withCollection_declare]
  rfl

/-- The object of a handler with accesses put into it. -/
def methodCollection (accesses : List Access) (body : List Node) : Node :=
  Collection.withMembers (readingMembers accesses (membersOf .object body))
    (collectionNode .object body)

theorem members?_methodCollection (accesses : List Access) (body : List Node) :
    Collection.object.members? (methodCollection accesses body) =
      some (readingMembers accesses (membersOf .object body)) :=
  members?_withMembers (members?_collectionNode .object body) _

/-- A handler with accesses put into its object. -/
def withAccesses (accesses : List Access) (f : Function) : Function :=
  { f with body := declare (methodCollection accesses f.body) f.body }

/-- **Parameters of a method** change the object of the handler and nothing else; when one has a
location that requests do not have, nothing changes. -/
theorem mergeMethodParameters_run (ps : List Spec.Parameter) (f : Function) (l : List Record) :
    match ps.mapM (accessTo (requestName f.params)) with
    | .ok accesses => ∃ l', (mergeMethodParameters ps).runFrom f l =
        ((.ok (), withAccesses accesses f), l')
    | .error x => (mergeMethodParameters ps).runFrom f l = ((.error x, f), l) := by
  unfold mergeMethodParameters
  rw [Edit.runFrom_bind, Edit.runFrom_get]
  dsimp only
  rw [Edit.runFrom_bind, Edit.runFrom_ofOutcome]
  cases ha : ps.mapM (accessTo (requestName f.params)) with
  | error x => rfl
  | ok accesses =>
    obtain ⟨l', h⟩ := ensureCollection_run .object f.body l
    refine ⟨l', ?_⟩
    dsimp only
    rw [Edit.runFrom_onPart, Edit.runFrom_bind, h]
    dsimp only
    rw [Edit.runFrom_modify, collectionOf_declare, withCollection_declare]
    rfl

end ApiRoutes.Route
