import Mathlib.Data.List.Forall2
import ApiRoutes.Proofs.Edit
import ApiRoutes.Proofs.Route.Accesses
/-!
# Descriptions of parameters

The array that describes the parameters of an endpoint: what a parameter has in it (`Entry`), and what
the edit that puts it there does (`putParameter_run`).
-/
namespace ApiRoutes.Route

open Script

/-! ## Properties of an object -/

/-- Is the node a property with this key? -/
def hasKey (key : Text) (n : Node) : Bool := (Query.property (some key)).finds n

/-- A property with another value. -/
def withValue (value : Node) (n : Node) : Node :=
  match n.shape with
  | .property k _ shorthand => n.withShape (.property k value shorthand)
  | _ => n

theorem putField_eq (key : Text) (value : Node) (properties : List Node) :
    putField key value properties =
      putFirst (hasKey key) (withValue value) (.property key value) properties :=
  modify_or_append _ (withValue value) _ properties

theorem hasKey_iff {key : Text} {n : Node} :
    hasKey key n = true ↔ ∃ value shorthand, n.shape = .property key value shorthand := by
  obtain ⟨l, s⟩ := n
  cases s with
  | property k v sh =>
    change (some k == some key) = true ↔ ∃ value shorthand, Shape.property k v sh = _
    rw [beq_iff_eq, Option.some.injEq]
    constructor
    · intro h
      exact ⟨v, sh, by rw [h]⟩
    · rintro ⟨_, _, h⟩
      cases h
      rfl
  | _ =>
    constructor
    · intro h
      cases h
    · rintro ⟨_, _, h⟩
      cases h

theorem isProperty_eq (key : Text) : Node.isProperty key = hasKey key := by
  funext n
  obtain ⟨l, s⟩ := n
  cases s with
  | property k v sh => rw [Bool.eq_iff_iff, hasKey_iff]; simp [Node.isProperty, Node.shape]
  | _ => rfl

theorem hasKey_withValue (key : Text) (value n : Node) :
    hasKey key (withValue value n) = hasKey key n := by
  obtain ⟨l, s⟩ := n
  cases s <;> rfl

theorem hasKey_property (key : Text) (value : Node) : hasKey key (.property key value) = true :=
  hasKey_iff.2 ⟨value, false, rfl⟩

theorem not_hasKey_of_ne {k k' : Text} (h : k ≠ k') {n : Node} (hn : hasKey k n = true) :
    hasKey k' n = false := by
  obtain ⟨v, sh, hs⟩ := hasKey_iff.1 hn
  rw [Bool.eq_false_iff]
  intro hn'
  obtain ⟨v', sh', hs'⟩ := hasKey_iff.1 hn'
  rw [hs] at hs'
  cases hs'
  exact h rfl

theorem withValue_withValue (v w n : Node) : withValue v (withValue w n) = withValue v n := by
  obtain ⟨l, s⟩ := n
  cases s <;> rfl

theorem any_putField (key : Text) (value : Node) (properties : List Node) :
    (putField key value properties).any (hasKey key) = true := by
  rw [putField_eq]
  exact any_putFirst (fun x hx => (hasKey_withValue key value x).trans hx) (hasKey_property key value) _

theorem any_putField_of_any {key key' : Text} (value : Node) {properties : List Node}
    (h : properties.any (hasKey key) = true) :
    (putField key' value properties).any (hasKey key) = true := by
  rw [putField_eq, putFirst]
  split
  · rw [any_alterFirst fun x _ => hasKey_withValue key value x, h]
  · rw [List.any_append, h, Bool.true_or]

theorem putField_putField (key : Text) (v w : Node) (properties : List Node) :
    putField key v (putField key w properties) = putField key v properties := by
  rw [putField_eq, putField_eq, putField_eq]
  exact putFirst_putFirst (fun x hx => (hasKey_withValue key w x).trans hx) (hasKey_property key w)
    (fun x _ => withValue_withValue v w x) rfl properties

theorem putField_comm {key key' : Text} (hne : key ≠ key') (v w : Node) {properties : List Node}
    (h : properties.any (hasKey key) = true) :
    putField key v (putField key' w properties) = putField key' w (putField key v properties) := by
  rw [putField_eq, putField_eq, putField_eq, putField_eq]
  refine putFirst_comm (fun x hx => not_hasKey_of_ne hne hx) (fun x hx => ?_) (fun x hx => ?_) h
  · rw [hasKey_withValue, not_hasKey_of_ne (Ne.symm hne) hx]
  · rw [hasKey_withValue, not_hasKey_of_ne hne hx]

theorem scalarAt_putField {key key' : Text} (hne : key ≠ key') (v : Node) (properties : List Node) :
    Node.scalarAt key (putField key' v properties) = Node.scalarAt key properties := by
  have hfind : (putField key' v properties).find? (hasKey key) = properties.find? (hasKey key) := by
    have hother := fun x => not_hasKey_of_ne (n := x) (Ne.symm hne)
    rw [putField_eq]
    refine find?_putFirst_of_disjoint hother (fun x hx => ?_)
      (hother _ (hasKey_property key' v)) properties
    rw [hasKey_withValue, hother x hx]
  rw [Node.scalarAt, isProperty_eq, hfind, ← isProperty_eq]
  rfl

theorem scalarAt_putField_self (key : Text) (v : Value) (properties : List Node) :
    Node.scalarAt key (putField key (.literal v) properties) = v := by
  have hfind := find?_putFirst (p := hasKey key)
    (fun x hx => (hasKey_withValue key (.literal v) x).trans hx) (hasKey_property key (.literal v))
    properties
  rw [← putField_eq] at hfind
  rw [Node.scalarAt, isProperty_eq, hfind]
  cases hx : properties.find? (hasKey key) with
  | none => rfl
  | some n =>
    obtain ⟨v', sh, hs⟩ := hasKey_iff.1 (List.find?_some hx)
    obtain ⟨l, s⟩ := n
    cases hs
    rfl

/-! ## Objects that describe parameters -/

/-- What a parameter has in the array: its location, its name, and the literals of its other fields. -/
structure Entry where
  location : Text
  name : Text
  others : List (Text × Node)
  distinct : ("name" :: "in" :: others.map (·.1) : List Text).Nodup

namespace Entry

/-- All its fields with their literals. -/
def fields (x : Entry) : List (Text × Node) :=
  ("name", .literal (.text x.name)) :: ("in", .literal (.text x.location)) :: x.others

/-- How it is found. -/
def query (x : Entry) : Query := .parameterEntry (.text x.location) (.text x.name)

/-- A new object for it. -/
def node (x : Entry) : Node := .object (x.fields.map fun f => .property f.1 f.2)

end Entry

/-- An object with a field. -/
def withField (f : Text × Node) (n : Node) : Node :=
  match n.shape with
  | .object properties inline => n.withShape (.object (putField f.1 f.2 properties) inline)
  | _ => n

/-- An object with fields. -/
def withFields (fs : List (Text × Node)) (n : Node) : Node := fs.foldl (fun n f => withField f n) n

/-- The array with an entry: in the object that describes it, or else in a new one. -/
def putEntry (elements : List Node) (x : Entry) : List Node :=
  putFirst x.query.finds (withFields x.fields) x.node elements

theorem sameValue_text_iff {v : Value} {t : Text} : v.sameValue (.text t) = true ↔ v = .text t := by
  cases v <;> simp [Value.sameValue, Value.number?]

theorem finds_parameterEntry {location name : Text} {n : Node} :
    (Query.parameterEntry (.text location) (.text name)).finds n = true ↔
      ∃ properties inline, n.shape = .object properties inline ∧
        Node.scalarAt "in" properties = .text location ∧
        Node.scalarAt "name" properties = .text name := by
  obtain ⟨l, s⟩ := n
  cases s with
  | object ps inline =>
    simp only [Query.finds, Node.shape, Bool.and_eq_true, sameValue_text_iff]
    constructor
    · intro h
      exact ⟨ps, inline, rfl, h⟩
    · rintro ⟨_, _, hs, h⟩
      cases hs
      exact h
  | _ =>
    constructor
    · intro h
      cases h
    · rintro ⟨_, _, h, _⟩
      cases h

/-! ## What the edit does -/

/-- The literals of the fields of a mapping. -/
def literals : Entries → Outcome (List (Text × Node))
  | [] => .ok []
  | (k, v) :: rest => do
    let node ← Node.ofValue v
    return (k.plain, node) :: (← literals rest)

theorem putFields_eq : ∀ (fs : Entries) (properties : List Node),
    putFields properties fs =
      (literals fs).map (List.foldl (fun ps f => putField f.1 f.2 ps) properties)
  | [], _ => rfl
  | (k, v) :: rest, properties => by
    rw [putFields, literals]
    cases Node.ofValue v with
    | error x => rfl
    | ok node =>
      change putFields (putField k.plain node properties) rest = _
      rw [putFields_eq rest]
      cases literals rest <;> rfl

theorem ofEntries_eq : ∀ fs : Entries,
    Node.ofEntries fs = (literals fs).map (List.map fun f => Node.property f.1 f.2)
  | [] => rfl
  | (k, v) :: rest => by
    rw [Node.ofEntries, literals]
    cases Node.ofValue v with
    | error x => rfl
    | ok node =>
      change (do return Node.property k.plain node :: (← Node.ofEntries rest)) = _
      rw [ofEntries_eq rest]
      cases literals rest <;> rfl

theorem withFields_object (fs : List (Text × Node)) : ∀ (l : Layout) (ps : List Node) (inline : Bool),
    withFields fs (.mk l (.object ps inline)) =
      .mk l (.object (fs.foldl (fun ps f => putField f.1 f.2 ps) ps) inline) := by
  induction fs with
  | nil => exact fun _ _ _ => rfl
  | cons f fs ih => exact fun l ps inline => ih l (putField f.1 f.2 ps) inline

/-- The entry is that of the parameter. -/
def Entry.Of (p : Spec.Parameter) (x : Entry) : Prop :=
  x.location = p.location ∧ x.name = p.name ∧
    ∃ fields, p.fields = .ok fields ∧ literals fields = .ok x.fields

/-- **Putting a parameter into the array** puts its entry there. -/
theorem putParameter_run {p : Spec.Parameter} {x : Entry} (hx : x.Of p) (elements : List Node)
    (l : List Record) :
    (putParameter p).runFrom elements l = ((.ok (), putEntry elements x), l) := by
  obtain ⟨hl, hn, fields, hfields, hliterals⟩ := hx
  have hq : Query.parameterEntry (.text p.location) (.text p.name) = x.query := by
    rw [Entry.query, hl, hn]
  unfold putParameter
  rw [hq, Edit.runFrom_bind, Edit.runFrom_ofOutcome, hfields]
  dsimp only
  rw [Edit.runFrom_bind, Edit.runFrom_get]
  dsimp only
  cases hi : x.query.index? elements with
  | none =>
    dsimp only
    rw [Edit.runFrom_bind, Edit.runFrom_ofOutcome, Node.ofValue, ofEntries_eq, hliterals]
    rw [putEntry, putFirst_of_not_any (not_any_of_findIdx? hi)]
    rfl
  | some i =>
    have hat := getElem?_of_findIdx? hi
    obtain ⟨n, hn⟩ := exists_find?_of_any (any_of_findIdx? hi)
    obtain ⟨ps, inline, hs, -⟩ := finds_parameterEntry.1 (List.find?_some hn)
    dsimp only
    rw [hat, hn, Option.map_some, hs]
    dsimp only
    rw [Edit.runFrom_bind, Edit.runFrom_ofOutcome, putFields_eq, hliterals]
    change ((_, elements.modify i (Node.withShape _)), l) = _
    rw [putEntry, putFirst_of_any (any_of_findIdx? hi), modify_findIdx? _ hi]
    congr 2
    refine alterFirst_congr fun m hm => ?_
    rw [hn, Option.some.injEq] at hm
    subst hm
    obtain ⟨ln, sn⟩ := n
    cases hs
    rw [withFields_object]
    rfl

theorem keys_literals : ∀ {fs : Entries} {ws : List (Text × Node)}, literals fs = .ok ws →
    ws.map (·.1) = fs.map (·.1.plain)
  | [], _, h => by cases h; rfl
  | (k, v) :: rest, ws, h => by
    rw [literals] at h
    cases hv : Node.ofValue v with
    | error x => rw [hv] at h; cases h
    | ok node =>
      cases hr : literals rest with
      | error x => rw [hv, hr] at h; cases h
      | ok ws' =>
        rw [hv, hr] at h
        cases h
        rw [List.map_cons, List.map_cons, keys_literals hr]

theorem keys_interchange : ∀ {others : List (Text × Value)} {fs : Entries},
    others.mapM (fun (k, v) => return (Value.text k, ← v.interchange)) = (.ok fs : Outcome Entries) →
      fs.map (·.1.plain) = others.map (·.1)
  | [], _, h => by cases h; rfl
  | (k, v) :: rest, fs, h => by
    rw [List.mapM_cons] at h
    dsimp only at h
    cases hv : v.interchange with
    | error x => rw [hv] at h; cases h
    | ok v' =>
      cases hr : rest.mapM (m := Outcome) fun (k, v) => return (Value.text k, ← v.interchange) with
      | error x => rw [hv, hr] at h; cases h
      | ok fs' =>
        rw [hv, hr] at h
        cases h
        rw [List.map_cons, List.map_cons, keys_interchange hr]
        rfl

theorem Entry.exists_of {p : Spec.Parameter} {fields : Entries} {ws : List (Text × Node)}
    (hf : p.fields = .ok fields) (hw : literals fields = .ok ws) : ∃ x : Entry, x.Of p := by
  have hfields := hf
  unfold Spec.Parameter.fields at hf
  cases ho : p.others.mapM (m := Outcome) fun (k, v) => return (Value.text k, ← v.interchange) with
  | error x => rw [ho] at hf; cases hf
  | ok fs =>
    rw [ho] at hf
    cases hf
    cases hr : literals fs with
    | error x => rw [literals, literals, hr] at hw; cases hw
    | ok others =>
      have hkeys : others.map (·.1) = p.others.map (·.1) :=
        (keys_literals hr).trans (keys_interchange ho)
      refine ⟨⟨p.location, p.name, others, ?_⟩, rfl, rfl, _, hfields, ?_⟩
      · rw [hkeys]
        exact p.distinct
      · rw [literals, literals, hr]
        rfl

theorem putParameter_takes {p : Spec.Parameter} {elements elements' : List Node} {u : Unit}
    (h : (putParameter p).Takes elements u elements') :
    ∃ x : Entry, x.Of p ∧ elements' = putEntry elements x := by
  suffices hx : ∃ x : Entry, x.Of p by
    obtain ⟨x, hx⟩ := hx
    obtain ⟨l, l', h⟩ := h
    rw [putParameter_run hx] at h
    cases h
    exact ⟨x, hx, rfl⟩
  unfold putParameter at h
  obtain ⟨fields, es, he, ht⟩ := h.of_bind
  obtain ⟨hf, rfl⟩ := he.of_ofOutcome
  replace ht := ht.of_get_bind
  cases hi : (Query.parameterEntry (.text p.location) (.text p.name)).index? es with
  | none =>
    rw [hi] at ht
    obtain ⟨entry, _, hn, -⟩ := Edit.Takes.of_bind ht
    obtain ⟨hok, -⟩ := hn.of_ofOutcome
    rw [Node.ofValue, ofEntries_eq] at hok
    cases hw : literals fields with
    | error x => rw [hw] at hok; cases hok
    | ok ws => exact Entry.exists_of hf hw
  | some i =>
    obtain ⟨n, hn⟩ := exists_find?_of_any (any_of_findIdx? hi)
    obtain ⟨ps, inline, hs, -⟩ := finds_parameterEntry.1 (List.find?_some hn)
    rw [hi] at ht
    dsimp only at ht
    rw [getElem?_of_findIdx? hi, hn, Option.map_some, hs] at ht
    obtain ⟨properties, _, hp, -⟩ := Edit.Takes.of_bind ht
    obtain ⟨hok, -⟩ := hp.of_ofOutcome
    rw [putFields_eq] at hok
    cases hw : literals fields with
    | error x => rw [hw] at hok; cases hok
    | ok ws => exact Entry.exists_of hf hw

theorem forM_putParameter_run : ∀ {ps : List Spec.Parameter} {xs : List Entry},
    List.Forall₂ Entry.Of ps xs → ∀ (elements : List Node) (l : List Record),
      (ps.forM putParameter).runFrom elements l = ((.ok (), xs.foldl putEntry elements), l)
  | _, _, .nil, _, _ => rfl
  | _, _, .cons hx hxs, elements, l => by
    refine (Edit.runFrom_bind (putParameter _) (fun _ => List.forM _ putParameter) elements l).trans ?_
    rw [putParameter_run hx]
    exact forM_putParameter_run hxs _ l

/-- **Putting parameters into the array** puts their entries there, one after the other. -/
theorem forM_putParameter_takes : ∀ {ps : List Spec.Parameter} {elements elements' : List Node} {u : Unit},
    (ps.forM putParameter).Takes elements u elements' →
      ∃ xs, List.Forall₂ Entry.Of ps xs ∧ elements' = xs.foldl putEntry elements
  | [], _, _, (), h => ⟨[], .nil, h.of_pure⟩
  | p :: ps, _, _, u, h => by
    obtain ⟨_, es, h₁, h₂⟩ := Edit.Takes.of_bind h
    obtain ⟨x, hx, rfl⟩ := putParameter_takes h₁
    obtain ⟨xs, hxs, rfl⟩ := forM_putParameter_takes h₂
    exact ⟨x :: xs, .cons hx hxs, rfl⟩

end ApiRoutes.Route
