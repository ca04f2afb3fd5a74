import ApiRoutes.Proofs.Route.Managed
/-!
# Steps of a merge

A step revises the first statement of a managed kind or, where there is none, puts a new one somewhere
(`Managed.Step`).  After a step of a kind there is at least one statement of the kind, and the numbers
of all other kinds are as before (`Managed.Steps.countP`); what steps put among the statements stands
above their first return (`Managed.Steps.beforeReturn`).
-/
namespace ApiRoutes.Route.Managed

open Script

/-- A new statement of a kind can stand between these: above all returns, and a new return below all
else. -/
def Placed (m : Managed) (pre post : List Node) : Prop :=
  pre.any Managed.returns.finds = false ∧ (m = .returns → post = [])

/-- One step of a merge, for statements of one kind. -/
inductive Step : Managed → List Node → List Node → Prop
  | revise {m : Managed} {body : List Node} {g : Node → Node}
      (hg : ∀ n, m.finds n = true → m.Revises n (g n)) (h : body.any m.finds = true) :
      Step m body (alterFirst m.finds g body)
  | insert {m : Managed} {pre post : List Node} {n : Node} (hn : m.New n)
      (h : (pre ++ post).any m.finds = false) (hp : m.Placed pre post) :
      Step m (pre ++ post) (pre ++ n :: post)

/-- Steps for statements of these kinds, one after the other. -/
inductive Steps : List Managed → List Node → List Node → Prop
  | nil {body : List Node} : Steps [] body body
  | cons {m : Managed} {ms : List Managed} {a b c : List Node} :
      Step m a b → Steps ms b c → Steps (m :: ms) a c

theorem Step.steps {m : Managed} {a b : List Node} (h : Step m a b) : Steps [m] a b := .cons h .nil

theorem Steps.append {ms ms' : List Managed} {a b c : List Node} (h : Steps ms a b)
    (h' : Steps ms' b c) : Steps (ms ++ ms') a c := by
  induction h with
  | nil => exact h'
  | cons hs _ ih => exact .cons hs (ih h')

/-! ## Numbers of statements -/

theorem map_finds_alterFirst {m : Managed} {g : Node → Node}
    (hg : ∀ n, m.finds n = true → m.Revises n (g n)) (body : List Node) (m' : Managed) :
    (alterFirst m.finds g body).map m'.finds = body.map m'.finds :=
  map_alterFirst (fun n hn => finds_of_of?_eq ((hg n hn).of?_eq hn) m') body

theorem countP_eq_zero_of_not_any {p : Node → Bool} {xs : List Node} (h : xs.any p = false) :
    xs.countP p = 0 := by
  rw [List.countP_eq_zero]
  rw [List.any_eq_false] at h
  exact h

/-- **A step makes sure of a statement of its kind** and changes the number of no other kind. -/
theorem Step.countP {m : Managed} {a b : List Node} (h : Step m a b) (m' : Managed) :
    b.countP m'.finds = if m' = m then max 1 (a.countP m'.finds) else a.countP m'.finds := by
  cases h with
  | revise hg h =>
    rw [countP_eq_of_map_eq (map_finds_alterFirst hg a m')]
    by_cases hm : m' = m
    · subst hm
      have : 0 < a.countP m'.finds := by rw [List.countP_pos_iff]; simpa using h
      rw [if_pos rfl]
      omega
    · rw [if_neg hm]
  | @insert pre post n hn h _ =>
    rw [List.countP_append, List.countP_cons, List.countP_append]
    by_cases hm : m' = m
    · subst hm
      have h0 := countP_eq_zero_of_not_any h
      rw [List.countP_append] at h0
      rw [if_pos rfl, if_pos hn.finds]
      omega
    · rw [if_neg hm, if_neg fun hf => hm (finds_inj hf hn.finds)]
      rfl

/-- **Every kind that has steps ends up with a statement**, all others with as many as before. -/
theorem Steps.countP {ms : List Managed} {a b : List Node} (h : Steps ms a b) (m : Managed) :
    b.countP m.finds = if m ∈ ms then max 1 (a.countP m.finds) else a.countP m.finds := by
  induction h with
  | nil => simp
  | @cons m' ms a b c hs _ ih =>
    rw [ih, hs.countP]
    by_cases hm : m = m' <;> by_cases hms : m ∈ ms <;> grind

/-! ## Numbers of collections in handlers -/

/-- The first function of a name. -/
def handler? (name : Option Text) (body : List Node) : Option Function :=
  match (body.find? (Managed.handler name).finds).map Node.shape with
  | some (.function f) => some f
  | _ => none

/-- Its statements, none where there is no such function. -/
def handlerBody (name : Option Text) (body : List Node) : List Node :=
  ((handler? name body).map (·.body)).getD []

theorem find?_handler {name : Option Text} {body : List Node} {f : Function}
    (h : handler? name body = some f) :
    ∃ l, body.find? (Managed.handler name).finds = some (.mk l (.function f)) := by
  unfold handler? at h
  cases hb : body.find? (Managed.handler name).finds with
  | none => rw [hb] at h; cases h
  | some n =>
    rw [hb] at h
    obtain ⟨l, s⟩ := n
    cases s <;> cases h
    exact ⟨l, rfl⟩

theorem countP_declare (c : Node) (body : List Node) :
    (declare c body).countP declares = max 1 (body.countP declares) := by
  by_cases h : body.any declares = true
  · rw [declare_of_any h, mapVariable_eq, countP_eq_of_map_eq (map_alterFirst (fun n _ =>
      declares_changeVariable (f := initialised c) (fun _ => rfl) n) body)]
    have : 0 < body.countP declares := by rw [List.countP_pos_iff]; simpa using h
    omega
  · have h := Bool.eq_false_iff.2 h
    rw [declare_of_not_any h, List.countP_cons, countP_eq_zero_of_not_any h]
    rfl

/-- **A step leaves the statements of all other kinds as they are**, in their order. -/
theorem Step.filter {m m' : Managed} {a b : List Node} (h : Step m a b) (hm : m' ≠ m) :
    b.filter m'.finds = a.filter m'.finds := by
  cases h with
  | revise hg h =>
    refine filter_alterFirst_of_disjoint (fun n hn => ?_) (fun n hn => ?_) a
    · rw [Bool.eq_false_iff]
      exact fun hf => hm (finds_inj hf hn)
    · rw [finds_of_of?_eq ((hg n hn).of?_eq hn), Bool.eq_false_iff]
      exact fun hf => hm (finds_inj hf hn)
  | insert hn h _ =>
    rw [List.filter_append, List.filter_append,
      List.filter_cons_of_neg fun hf => hm (finds_inj hf hn.finds)]

theorem Steps.filter {ms : List Managed} {m : Managed} {a b : List Node} (h : Steps ms a b)
    (hm : m ∉ ms) : b.filter m.finds = a.filter m.finds := by
  induction h with
  | nil => rfl
  | cons hs _ ih =>
    rw [List.mem_cons, not_or] at hm
    rw [ih hm.2, hs.filter hm.1]

theorem Step.find? {m m' : Managed} {a b : List Node} (h : Step m a b) (hm : m' ≠ m) :
    b.find? m'.finds = a.find? m'.finds := by
  rw [← List.head?_filter, h.filter hm, List.head?_filter]

theorem Steps.find? {ms : List Managed} {m : Managed} {a b : List Node} (h : Steps ms a b)
    (hm : m ∉ ms) : b.find? m.finds = a.find? m.finds := by
  rw [← List.head?_filter, h.filter hm, List.head?_filter]

theorem handler?_eq_of_find? {name : Option Text} {a b : List Node}
    (h : b.find? (Managed.handler name).finds = a.find? (Managed.handler name).finds) :
    handler? name b = handler? name a := by rw [handler?, h, handler?]

theorem Step.countP_handlerBody {m : Managed} {a b : List Node} (h : Step m a b)
    (name : Option Text) :
    (handlerBody name b).countP declares =
      if Managed.handler name = m then max 1 ((handlerBody name a).countP declares)
      else (handlerBody name a).countP declares := by
  by_cases hm : Managed.handler name = m
  · rw [if_pos hm]
    subst hm
    unfold handlerBody handler?
    cases h with
    | revise hg h =>
      rw [find?_alterFirst fun n hn => by rw [finds_of_of?_eq ((hg n hn).of?_eq hn), hn]]
      cases hf : a.find? (Managed.handler name).finds with
      | none =>
        rw [List.find?_eq_none] at hf
        rw [List.any_eq_true] at h
        obtain ⟨n, hn, hn'⟩ := h
        exact absurd hn' (hf n hn)
      | some n =>
        obtain ⟨f, c, hs, hr⟩ := hg n (List.find?_some hf)
        rw [Option.map_some, Option.map_some, Option.map_some, hr, hs]
        obtain ⟨l, s⟩ := n
        exact countP_declare c f.body
    | @insert pre post n hn h _ =>
      have hp := List.any_eq_false.1 h
      have hpre := List.find?_eq_none.2 fun x hx => hp x (List.mem_append_left post hx)
      have hpost := List.find?_eq_none.2 fun x hx => hp x (List.mem_append_right pre hx)
      rw [List.find?_append, List.find?_append, hpre, hpost, List.find?_cons_of_pos hn.finds]
      obtain ⟨verb, path, -, rfl⟩ := hn
      rfl
  · rw [if_neg hm, handlerBody, handlerBody, handler?_eq_of_find? (h.find? hm)]

theorem Steps.countP_handlerBody {ms : List Managed} {a b : List Node} (h : Steps ms a b)
    (name : Option Text) :
    (handlerBody name b).countP declares =
      if Managed.handler name ∈ ms then max 1 ((handlerBody name a).countP declares)
      else (handlerBody name a).countP declares := by
  induction h with
  | nil => simp
  | @cons m' ms a b c hs _ ih =>
    rw [ih, hs.countP_handlerBody]
    by_cases hm : Managed.handler name = m' <;> by_cases hms : Managed.handler name ∈ ms <;> grind

/-! ## Places of statements -/

/-- The first statement of the kind stands above the first return. -/
def BeforeReturn (m : Managed) (body : List Node) : Prop :=
  ∀ i j, m.query.index? body = some i → Query.returns.index? body = some j → i < j

/-- **A step puts nothing below a return**, and no return above anything. -/
theorem Step.beforeReturn {m m' : Managed} {a b : List Node} (hs : Step m' a b) (hm : m ≠ .returns)
    (h : m.BeforeReturn a) : m.BeforeReturn b := by
  intro i j hi hj
  change b.findIdx? m.finds = some i at hi
  change b.findIdx? Managed.returns.finds = some j at hj
  cases hs with
  | revise hg _ =>
    rw [findIdx?_eq_of_map_eq (map_finds_alterFirst hg a _)] at hi hj
    exact h i j hi hj
  | @insert pre post n hn hnone hp =>
    by_cases hr : m' = .returns
    · subst hr
      rw [hp.2 rfl] at hi hj hnone
      rw [List.append_nil] at hnone
      have hj' := length_le_of_findIdx? hnone hj
      rw [findIdx?_insert (Bool.eq_false_iff.2 fun hf => hm (finds_inj hf hn.finds)), List.append_nil]
        at hi
      obtain ⟨i', hi', rfl⟩ := Option.map_eq_some_iff.1 hi
      have := lt_length_of_findIdx? hi'
      rw [if_pos this]
      omega
    · have hnr : Managed.returns.finds n = false :=
        Bool.eq_false_iff.2 fun hf => hr (finds_inj hn.finds hf)
      by_cases hmm : m' = m
      · subst hmm
        rw [List.any_append, Bool.or_eq_false_iff] at hnone
        rw [findIdx?_insert_self post hn.finds hnone.1, Option.some.injEq] at hi
        subst hi
        have hpre : (pre ++ [n]).any Managed.returns.finds = false := by
          rw [List.any_append, hp.1]
          simp [hnr]
        have hj' : ((pre ++ [n]) ++ post).findIdx? Managed.returns.finds = some j := by simpa using hj
        have := length_le_of_findIdx? hpre hj'
        simp at this
        omega
      · have hnm : m.finds n = false := Bool.eq_false_iff.2 fun hf => hmm (finds_inj hn.finds hf)
        rw [findIdx?_insert hnm] at hi
        rw [findIdx?_insert hnr] at hj
        obtain ⟨i', hi', rfl⟩ := Option.map_eq_some_iff.1 hi
        obtain ⟨j', hj', rfl⟩ := Option.map_eq_some_iff.1 hj
        have := h i' j' hi' hj'
        split <;> split <;> omega

theorem Steps.beforeReturn {ms : List Managed} {m : Managed} {a b : List Node} (hs : Steps ms a b)
    (hm : m ≠ .returns) (h : m.BeforeReturn a) : m.BeforeReturn b := by
  induction hs with
  | nil => exact h
  | cons hs _ ih => exact ih (hs.beforeReturn hm h)

end ApiRoutes.Route.Managed
