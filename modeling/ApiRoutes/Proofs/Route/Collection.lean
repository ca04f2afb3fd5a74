import ApiRoutes.Proofs.Edit
import ApiRoutes.Proofs.FirstMatch
import ApiRoutes.Route.Parameters
/-!
# The variable of a collection

Statements whose collection becomes a given node (`declare`).  Both merges of parameters come down to
it: they leave the statements as they were, but for the initializer of the first variable
`parameters`, or but for a new first declaration of one.
-/
namespace ApiRoutes.Route

open Script

/-! ## The declaration -/

/-- Does the node declare the variable of a collection? -/
def declares (n : Node) : Bool := (Query.variables (some collectionVariable)).finds n

/-- The variable of a collection that a node declares. -/
def declared? (n : Node) : Option Declarator :=
  match n.shape with
  | .variables _ ds => Node.declarator? collectionVariable ds
  | _ => none

/-- A declaration with the variable of its collection changed. -/
def changeVariable (f : Declarator → Declarator) (n : Node) : Node :=
  match n.shape with
  | .variables kind ds => n.withShape (.variables kind (mapDeclarator collectionVariable f ds))
  | _ => n

theorem mapDeclarator_eq (name : Text) (f : Declarator → Declarator) : ∀ ds : List Declarator,
    mapDeclarator name f ds = alterFirst (·.name == name) f ds
  | [] => rfl
  | d :: ds => by
    rw [mapDeclarator, alterFirst, mapDeclarator_eq name f ds]
    by_cases h : d.name = name <;> simp [h]

theorem mapVariable_eq (f : Declarator → Declarator) (body : List Node) :
    mapVariable f body = alterFirst declares (changeVariable f) body := by
  unfold mapVariable
  cases h : (Query.variables (some collectionVariable)).index? body with
  | none => exact (alterFirst_of_not_any (not_any_of_findIdx? h)).symm
  | some i => exact modify_findIdx? (changeVariable f) h

theorem declaration?_eq (body : List Node) :
    declaration? body = (body.find? declares).bind declared? := by
  have h : (Query.variables (some collectionVariable)).first? body = body.find? declares := rfl
  unfold declaration?
  rw [h]
  rcases body.find? declares with _ | ⟨l, s⟩
  · rfl
  · cases s <;> rfl

theorem declares_iff {n : Node} : declares n = true ↔ (declared? n).isSome = true := by
  obtain ⟨l, s⟩ := n
  cases s <;> simp [declares, declared?, Query.finds, Node.shape, Node.declarator?]

theorem declared?_changeVariable {f : Declarator → Declarator} (hf : ∀ d, (f d).name = d.name)
    (n : Node) : declared? (changeVariable f n) = (declared? n).map f := by
  obtain ⟨l, s⟩ := n
  cases s with
  | «variables» kind ds =>
    simp only [declared?, changeVariable, Node.shape, Node.withShape, mapDeclarator_eq,
      Node.declarator?]
    exact find?_alterFirst (fun d hd => by rw [hf]; exact hd) ds
  | _ => rfl

theorem declares_changeVariable {f : Declarator → Declarator} (hf : ∀ d, (f d).name = d.name)
    (n : Node) : declares (changeVariable f n) = declares n := by
  rw [Bool.eq_iff_iff, declares_iff, declares_iff, declared?_changeVariable hf, Option.isSome_map]

theorem changeVariable_changeVariable {f g : Declarator → Declarator}
    (hg : ∀ d, (g d).name = d.name) (n : Node) :
    changeVariable f (changeVariable g n) = changeVariable (f ∘ g) n := by
  obtain ⟨l, s⟩ := n
  cases s with
  | «variables» kind ds =>
    simp only [changeVariable, Node.shape, Node.withShape, mapDeclarator_eq]
    rw [alterFirst_alterFirst fun d hd => by rw [hg]; exact hd]
  | _ => rfl

theorem changeVariable_congr {f g : Declarator → Declarator} {n : Node}
    (h : ∀ d, declared? n = some d → f d = g d) : changeVariable f n = changeVariable g n := by
  obtain ⟨l, s⟩ := n
  cases s with
  | «variables» kind ds =>
    simp only [changeVariable, Node.shape, Node.withShape, mapDeclarator_eq]
    rw [alterFirst_congr h]
  | _ => rfl

theorem changeVariable_id (n : Node) : changeVariable id n = n := by
  obtain ⟨l, s⟩ := n
  cases s with
  | «variables» kind ds =>
    simp only [changeVariable, Node.shape, Node.withShape, mapDeclarator_eq, alterFirst_id]
  | _ => rfl

theorem mapVariable_mapVariable {f g : Declarator → Declarator} (hg : ∀ d, (g d).name = d.name)
    (body : List Node) : mapVariable f (mapVariable g body) = mapVariable (f ∘ g) body := by
  rw [mapVariable_eq, mapVariable_eq, mapVariable_eq,
    alterFirst_alterFirst fun n hn => by rw [declares_changeVariable hg]; exact hn]
  congr 1
  funext n
  exact changeVariable_changeVariable hg n

theorem mapVariable_congr {f g : Declarator → Declarator} {body : List Node}
    (h : ∀ d, declaration? body = some d → f d = g d) :
    mapVariable f body = mapVariable g body := by
  rw [mapVariable_eq, mapVariable_eq]
  refine alterFirst_congr fun n hn => changeVariable_congr fun d hd => h d ?_
  rw [declaration?_eq, hn]
  exact hd

theorem mapVariable_id (body : List Node) : mapVariable id body = body := by
  rw [mapVariable_eq, show changeVariable id = id from funext changeVariable_id, alterFirst_id]

theorem declaration?_mapVariable {f : Declarator → Declarator} (hf : ∀ d, (f d).name = d.name)
    (body : List Node) : declaration? (mapVariable f body) = (declaration? body).map f := by
  rw [mapVariable_eq, declaration?_eq, declaration?_eq,
    find?_alterFirst fun n hn => by rw [declares_changeVariable hf]; exact hn]
  cases body.find? declares with
  | none => rfl
  | some n => exact declared?_changeVariable hf n

theorem declaration?_isSome (body : List Node) :
    (declaration? body).isSome = body.any declares := by
  rw [declaration?_eq]
  cases h : body.find? declares with
  | none =>
    rw [List.find?_eq_none] at h
    symm
    simpa using h
  | some n =>
    have hd := List.find?_some h
    rw [Option.bind_some, declares_iff.1 hd, eq_comm, List.any_eq_true]
    exact ⟨n, List.mem_of_find?_eq_some h, hd⟩

/-! ## Statements with a given collection -/

/-- The variable with the initializer `c`. -/
def initialised (c : Node) (d : Declarator) : Declarator := { d with init := some c }

/-- The statements with the node `c` as their collection: it initializes the variable, which is
declared first of all where it is missing. -/
def declare (c : Node) (body : List Node) : List Node :=
  if body.any declares then mapVariable (initialised c) body else .const collectionVariable c :: body

theorem declare_of_any {c : Node} {body : List Node} (h : body.any declares = true) :
    declare c body = mapVariable (initialised c) body := if_pos h

theorem declare_of_not_any {c : Node} {body : List Node} (h : body.any declares = false) :
    declare c body = .const collectionVariable c :: body := if_neg (by simp [h])

theorem declaration?_const (c : Node) (body : List Node) :
    declaration? (.const collectionVariable c :: body) =
      some { name := collectionVariable, init := some c } := by
  rw [declaration?_eq]
  rfl

theorem init_declare (c : Node) (body : List Node) :
    (declaration? (declare c body)).bind (·.init) = some c := by
  by_cases h : body.any declares = true
  · rw [declare_of_any h]
    rw [← declaration?_isSome, Option.isSome_iff_exists] at h
    obtain ⟨d, hd⟩ := h
    rw [declaration?_mapVariable (f := initialised c) fun _ => rfl, hd]
    rfl
  · rw [declare_of_not_any (Bool.eq_false_iff.2 h), declaration?_const]
    rfl

theorem any_declare (c : Node) (body : List Node) : (declare c body).any declares = true := by
  rw [← declaration?_isSome]
  have h := init_declare c body
  cases hd : declaration? (declare c body) with
  | none => rw [hd] at h; cases h
  | some d => rfl

theorem declare_declare (c c' : Node) (body : List Node) :
    declare c' (declare c body) = declare c' body := by
  rw [declare_of_any (any_declare c body)]
  by_cases h : body.any declares = true
  · rw [declare_of_any h, declare_of_any h]
    exact mapVariable_mapVariable (g := initialised c) (fun _ => rfl) body
  · have h := Bool.eq_false_iff.2 h
    rw [declare_of_not_any h, declare_of_not_any h, mapVariable_eq]
    rfl

theorem declare_of_init {c : Node} {body : List Node}
    (h : (declaration? body).bind (·.init) = some c) : declare c body = body := by
  obtain ⟨d, hd, hc⟩ := Option.bind_eq_some_iff.1 h
  have ha : body.any declares = true := by rw [← declaration?_isSome, hd]; rfl
  rw [declare_of_any ha]
  conv => rhs; rw [← mapVariable_id body]
  refine mapVariable_congr fun d' hd' => ?_
  rw [hd, Option.some.injEq] at hd'
  rw [← hd', initialised, ← hc]
  rfl

end ApiRoutes.Route
