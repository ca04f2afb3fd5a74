import ApiRoutes.Proofs.Route.Steps
import ApiRoutes.Route.Handler
/-!
# Runs of the edits of one method

What the edits for a handler, its documentation and the return make of the statements of a route
function (`ensureHandler_takes`, `documentHandler_takes`, `offerHandlers_eq`), and the steps that
they are.
-/
namespace ApiRoutes.Route

open Script

/-! ## Handlers -/

theorem insertBeforeReturn_eq (n : Node) (body : List Node) :
    insertBeforeReturn n body = insertFirst Query.returns.finds n body := by
  unfold insertBeforeReturn
  cases h : Query.returns.index? body with
  | none => exact (insertFirst_of_not_any n (not_any_of_findIdx? h)).symm
  | some i => exact insertFirst_of_findIdx? n h

/-- The statements with a handler for a method, a new one where there is none. -/
def withHandler (verb path : Text) (body : List Node) : List Node :=
  if body.any (Managed.handler (some verb)).finds then body
  else insertBeforeReturn (newHandler verb path) body

/-- A function with accesses put into its object. -/
def reading (accesses : List Access) (n : Node) : Node :=
  match n.shape with
  | .function f => n.withShape (.function (withAccesses accesses f))
  | _ => n

theorem handler?_isSome (name : Option Text) (body : List Node) :
    (Managed.handler? name body).isSome = body.any (Managed.handler name).finds := by
  unfold Managed.handler?
  cases h : body.find? (Managed.handler name).finds with
  | none =>
    rw [List.find?_eq_none] at h
    symm
    simpa using h
  | some n =>
    have hn := List.find?_some h
    have ha : body.any (Managed.handler name).finds = true :=
      List.any_eq_true.2 ⟨n, List.mem_of_find?_eq_some h, hn⟩
    rw [ha]
    obtain ⟨l, s⟩ := n
    cases s <;> first | rfl | cases hn

theorem any_withHandler (verb path : Text) (body : List Node) :
    (withHandler verb path body).any (Managed.handler (some verb)).finds = true := by
  unfold withHandler
  split
  · assumption
  · obtain ⟨pre, post, -, h, -⟩ := insertFirst_eq Query.returns.finds (newHandler verb path) body
    rw [insertBeforeReturn_eq, h, List.any_append, List.any_cons,
      Managed.New.finds (m := .handler (some verb)) ⟨verb, path, rfl, rfl⟩]
    simp

theorem withHandler_of_some {verb path : Text} {body : List Node} {i : Nat}
    (h : (Query.function (some verb)).index? body = some i) : withHandler verb path body = body :=
  if_pos (any_of_findIdx? h)

theorem withHandler_of_none {verb path : Text} {body : List Node}
    (h : (Query.function (some verb)).index? body = none) :
    withHandler verb path body = insertBeforeReturn (newHandler verb path) body := by
  have ha : body.any (Managed.handler (some verb)).finds = false := not_any_of_findIdx? h
  rw [withHandler, ha]
  rfl

theorem functionAt_eq {verb : Text} {body : List Node} {f : Function} {i : Nat}
    (hi : (Query.function (some verb)).index? body = some i) (hf : Managed.handler? (some verb) body = some f) :
    functionAt i body = f := by
  obtain ⟨l, hn⟩ := Managed.find?_handler hf
  rw [functionAt, getElem?_of_findIdx? (p := (Managed.handler (some verb)).finds) hi, hn]
  rfl

theorem putFunction_eq {verb : Text} {body : List Node} {f g : Function} {i : Nat}
    (hi : (Query.function (some verb)).index? body = some i) (hf : Managed.handler? (some verb) body = some f)
    {k : Node → Node} (hk : ∀ l, k (.mk l (.function f)) = .mk l (.function g)) :
    putFunction i g body = alterFirst (Managed.handler (some verb)).finds k body := by
  obtain ⟨l, hn⟩ := Managed.find?_handler hf
  rw [putFunction, modify_findIdx? _ hi]
  refine alterFirst_congr fun x hx => ?_
  rw [show body.find? (Query.function (some verb)).finds = _ from hn, Option.some.injEq] at hx
  subst hx
  exact (hk l).symm

theorem exists_withHandler (verb path : Text) (body : List Node) :
    ∃ f, Managed.handler? (some verb) (withHandler verb path body) = some f :=
  Option.isSome_iff_exists.1 ((handler?_isSome _ _).trans (any_withHandler verb path body))

/-- Making sure of a handler is merging the parameters into the handler that there is, or into a new one. -/
theorem ensureHandler_run (verb path : Text) (o : Spec.Operation) (body : List Node) (l : List Record) :
    ∃ i l', (Query.function (some verb)).index? (withHandler verb path body) = some i ∧
      (ensureHandler verb path o).runFrom body l =
        (Edit.onPart (functionAt i) (putFunction i) (mergeMethodParameters o.parameters)).runFrom
          (withHandler verb path body) l' := by
  obtain ⟨i, hi⟩ := exists_findIdx?_of_any (any_withHandler verb path body)
  change (Query.function (some verb)).index? _ = some i at hi
  unfold ensureHandler
  rw [Edit.runFrom_bind, Edit.runFrom_get]
  cases hq : (Query.function (some verb)).index? body with
  | none =>
    rw [withHandler_of_none hq] at hi ⊢
    refine ⟨i, l ++ [⟨.debug, "creating " ++ verb ++ " handler for " ++ path⟩], hi, ?_⟩
    simp only [hq, Option.isNone_none, if_true, Edit.runFrom_bind, Edit.runFrom_log, Edit.runFrom_modify,
      Edit.runFrom_get, hi]
  | some j =>
    rw [withHandler_of_some hq] at hi ⊢
    refine ⟨i, l, hi, ?_⟩
    obtain rfl := Option.some.inj (hq.symm.trans hi)
    simp only [hq, Option.isNone_some, Bool.false_eq_true, if_false, Edit.runFrom_bind, Edit.runFrom_get]

section Ensured

variable {verb path : Text} {o : Spec.Operation} {body : List Node} {f : Function}

/-- **A handler that is made sure of reads the parameters** of its method. -/
theorem ensureHandler_takes {body' : List Node} {u : Unit} (h : (ensureHandler verb path o).Takes body u body') :
    ∃ f accesses, Managed.handler? (some verb) (withHandler verb path body) = some f ∧
      o.parameters.mapM (accessTo (requestName f.params)) = .ok accesses ∧
      body' = alterFirst (Managed.handler (some verb)).finds (reading accesses)
        (withHandler verb path body) := by
  obtain ⟨f, hf⟩ := exists_withHandler verb path body
  obtain ⟨l, l', h⟩ := h
  obtain ⟨i, l₁, hi, hrun⟩ := ensureHandler_run verb path o body l
  rw [hrun, Edit.runFrom_onPart, functionAt_eq hi hf] at h
  have hm := mergeMethodParameters_run o.parameters f l₁
  cases ha : o.parameters.mapM (accessTo (requestName f.params)) with
  | error x =>
    rw [ha] at hm
    dsimp only at hm
    rw [hm] at h
    cases h
  | ok accesses =>
    rw [ha] at hm
    obtain ⟨l₂, hm⟩ := hm
    rw [hm] at h
    cases h
    exact ⟨f, accesses, hf, ha, putFunction_eq hi hf fun _ => rfl⟩

theorem ensureHandler_puts {accesses : List Access}
    (hf : Managed.handler? (some verb) (withHandler verb path body) = some f)
    (ha : o.parameters.mapM (accessTo (requestName f.params)) = .ok accesses) :
    (ensureHandler verb path o).Gives body ()
      (alterFirst (Managed.handler (some verb)).finds (reading accesses) (withHandler verb path body)) := fun l => by
  obtain ⟨i, l₁, hi, hrun⟩ := ensureHandler_run verb path o body l
  have hm := mergeMethodParameters_run o.parameters f l₁
  rw [ha] at hm
  obtain ⟨l₂, hm⟩ := hm
  refine ⟨l₂, ?_⟩
  rw [hrun, Edit.runFrom_onPart, functionAt_eq hi hf, hm]
  dsimp only
  rw [putFunction_eq hi hf (k := reading accesses) fun _ => rfl]

/-- **A handler whose parameters are refused** stays as it is; where there was none, the new one stays. -/
theorem ensureHandler_refuses {x : Failure}
    (hf : Managed.handler? (some verb) (withHandler verb path body) = some f)
    (ha : o.parameters.mapM (accessTo (requestName f.params)) = .error x) :
    (ensureHandler verb path o).Refuses body x (withHandler verb path body) := fun l => by
  obtain ⟨i, l₁, hi, hrun⟩ := ensureHandler_run verb path o body l
  have hm := mergeMethodParameters_run o.parameters f l₁
  rw [ha] at hm
  dsimp only at hm
  refine ⟨l₁, ?_⟩
  rw [hrun, Edit.runFrom_onPart, functionAt_eq hi hf, hm]
  dsimp only
  rw [putFunction_eq hi hf (k := id) fun _ => rfl, alterFirst_id]

end Ensured

theorem handler?_reading {name : Option Text} {accesses : List Access} {body : List Node} {f : Function}
    (h : Managed.handler? name body = some f) :
    Managed.handler? name (alterFirst (Managed.handler name).finds (reading accesses) body) =
      some (withAccesses accesses f) := by
  have hg : ∀ n, (Managed.handler name).finds n = true →
      (Managed.handler name).finds (reading accesses n) = true := by
    rintro ⟨l, s⟩ hn
    cases s with
    | function f => exact hn
    | _ => cases hn
  obtain ⟨l, hn⟩ := Managed.find?_handler h
  rw [Managed.handler?, find?_alterFirst hg, hn]
  rfl

/-! ## Documentation and the return -/

/-- The statements with a value as the documentation of a method. -/
def withDocumentation (verb : Text) (value : Node) (body : List Node) : List Node :=
  if body.any (Managed.documentation verb).finds then
    alterFirst (Managed.documentation verb).finds (documentingFor verb value) body
  else insertBeforeReturn (documenting verb value) body

theorem documentationStatement_ok {verb : Text} {o : Spec.Operation} {n : Node}
    (h : documentationStatement verb o = .ok n) :
    ∃ entries value, o.documentation = .ok entries ∧ Node.ofValue (.map entries) = .ok value ∧
      n = documenting verb value := by
  unfold documentationStatement at h
  cases he : o.documentation with
  | error x => rw [he] at h; cases h
  | ok entries =>
    rw [he] at h
    simp only [bind, Except.bind] at h
    cases hv : Node.ofValue (.map entries) with
    | error x => rw [hv] at h; cases h
    | ok value =>
      rw [hv] at h
      cases h
      exact ⟨entries, value, rfl, hv, rfl⟩

/-- **Documenting a method** puts the literal of all that the document says of it. -/
theorem documentHandler_takes {verb : Text} {o : Spec.Operation} {body body' : List Node} {u : Unit}
    (h : (documentHandler verb o).Takes body u body') :
    ∃ entries value, o.documentation = .ok entries ∧ Node.ofValue (.map entries) = .ok value ∧
      body' = withDocumentation verb value body := by
  unfold documentHandler at h
  obtain ⟨statement, s, hs, hm⟩ := h.of_bind
  obtain ⟨hok, rfl⟩ := hs.of_ofOutcome
  obtain ⟨entries, value, he, hv, rfl⟩ := documentationStatement_ok hok
  refine ⟨entries, value, he, hv, hm.of_modify.trans ?_⟩
  unfold withDocumentation
  cases hi : (Query.documentation (some verb)).index? s with
  | none =>
    have ha : s.any (Managed.documentation verb).finds = false := not_any_of_findIdx? hi
    rw [ha]
    rfl
  | some i =>
    have ha : s.any (Managed.documentation verb).finds = true := any_of_findIdx? hi
    rw [if_pos ha]
    exact modify_findIdx? _ hi

theorem documentingFor_documenting (verb : Text) (value : Node) :
    documentingFor verb value (documenting verb value) = documenting verb value := by
  unfold documentingFor
  obtain ⟨l, s⟩ := documenting verb value
  rfl

theorem find?_withDocumentation (verb : Text) (value : Node) (body : List Node) :
    ∃ n, (withDocumentation verb value body).find? (Managed.documentation verb).finds = some n ∧
      documentingFor verb value n = n := by
  unfold withDocumentation
  split
  · rename_i h
    rw [find?_alterFirst fun n _ => Managed.finds_iff.2 rfl]
    obtain ⟨n, hn⟩ := exists_find?_of_any h
    rw [hn]
    exact ⟨_, rfl, rfl⟩
  · rename_i h
    obtain ⟨pre, post, rfl, hi, -⟩ :=
      insertFirst_eq Query.returns.finds (documenting verb value) body
    have hp := List.any_eq_false.1 (Bool.eq_false_iff.2 h)
    rw [insertBeforeReturn_eq, hi, List.find?_append,
      List.find?_eq_none.2 fun x hx => hp x (List.mem_append_left post hx),
      List.find?_cons_of_pos (Managed.finds_iff.2 rfl)]
    exact ⟨_, rfl, documentingFor_documenting verb value⟩

theorem offerHandlers_eq (verbs : List Text) (body : List Node) :
    offerHandlers verbs body =
      if body.any Managed.returns.finds then
        alterFirst Managed.returns.finds (Node.withShape (.returns (some (offered verbs)))) body
      else body ++ [returning verbs] := by
  unfold offerHandlers
  cases hi : Query.returns.index? body with
  | none =>
    have ha : body.any Managed.returns.finds = false := not_any_of_findIdx? hi
    rw [ha]
    rfl
  | some i =>
    have ha : body.any Managed.returns.finds = true := any_of_findIdx? hi
    rw [if_pos ha]
    exact modify_findIdx? _ hi

theorem find?_offerHandlers (verbs : List Text) (body : List Node) :
    ∃ n, (offerHandlers verbs body).find? Managed.returns.finds = some n ∧
      n.withShape (.returns (some (offered verbs))) = n := by
  rw [offerHandlers_eq]
  split
  · rename_i h
    rw [find?_alterFirst fun n _ => Managed.finds_iff.2 (by obtain ⟨l, s⟩ := n; rfl)]
    obtain ⟨⟨l, s⟩, hn⟩ := exists_find?_of_any h
    rw [hn]
    exact ⟨_, rfl, rfl⟩
  · rename_i h
    rw [List.find?_append, find?_of_not_any (Bool.eq_false_iff.2 h),
      List.find?_cons_of_pos (Managed.New.finds (m := .returns) ⟨verbs, rfl⟩)]
    exact ⟨returning verbs, rfl, rfl⟩

/-! ## The steps -/

theorem step_declare (c : Node) (body : List Node) :
    Managed.Step .collection body (declare c body) := by
  by_cases h : body.any declares = true
  · rw [declare_of_any h, mapVariable_eq]
    exact .revise (m := .collection) (fun n _ => ⟨c, rfl⟩) h
  · have h := Bool.eq_false_iff.2 h
    rw [declare_of_not_any h]
    exact @Managed.Step.insert .collection [] body _ ⟨c, rfl⟩ h ⟨rfl, fun hm => nomatch hm⟩

theorem step_insertBeforeReturn {m : Managed} {n : Node} {body : List Node} (hn : m.New n)
    (hm : m ≠ .returns) (h : body.any m.finds = false) :
    Managed.Step m body (insertBeforeReturn n body) := by
  rw [insertBeforeReturn_eq]
  obtain ⟨pre, post, rfl, hi, hpre⟩ := insertFirst_eq Query.returns.finds n body
  rw [hi]
  exact .insert hn h ⟨hpre, fun hr => absurd hr hm⟩

theorem step_reading {name : Option Text} {body : List Node} (accesses : List Access)
    (h : body.any (Managed.handler name).finds = true) :
    Managed.Step (.handler name) body
      (alterFirst (Managed.handler name).finds (reading accesses) body) := by
  refine .revise (fun n hn => ?_) h
  obtain ⟨l, s⟩ := n
  cases s with
  | function f => exact ⟨f, _, rfl, rfl⟩
  | _ => cases hn

theorem step_withDocumentation (verb : Text) (value : Node) (body : List Node) :
    Managed.Step (.documentation verb) body (withDocumentation verb value body) := by
  unfold withDocumentation
  split
  · rename_i h
    exact .revise (fun n _ => ⟨value, rfl⟩) h
  · rename_i h
    exact step_insertBeforeReturn ⟨value, rfl⟩ (fun hm => nomatch hm) (Bool.eq_false_iff.2 h)

theorem step_offerHandlers (verbs : List Text) (body : List Node) :
    Managed.Step .returns body (offerHandlers verbs body) := by
  rw [offerHandlers_eq]
  split
  · rename_i h
    exact .revise (fun n _ => ⟨verbs, rfl⟩) h
  · rename_i h
    have h := Bool.eq_false_iff.2 h
    have hs : Managed.Step .returns (body ++ []) (body ++ [returning verbs]) :=
      .insert ⟨verbs, rfl⟩ (by rw [List.append_nil]; exact h) ⟨h, fun _ => rfl⟩
    rwa [List.append_nil] at hs

/-- Putting a handler among the statements is a step where there is none, and nothing where there is one. -/
theorem steps_withHandler (verb path : Text) (body : List Node) :
    ∃ ms, Managed.Steps ms body (withHandler verb path body) ∧ ∀ m ∈ ms, m = .handler (some verb) := by
  unfold withHandler
  split
  · exact ⟨[], .nil, fun m hm => nomatch hm⟩
  · rename_i h
    have hs : Managed.Step (.handler (some verb)) body (insertBeforeReturn (newHandler verb path) body) :=
      step_insertBeforeReturn ⟨verb, path, rfl, rfl⟩ (fun hm => nomatch hm) (Bool.eq_false_iff.2 h)
    exact ⟨_, hs.steps, fun m => List.mem_singleton.1⟩

theorem ensureHandler_steps {verb path : Text} {o : Spec.Operation} {body body' : List Node}
    {u : Unit} (h : (ensureHandler verb path o).Takes body u body') :
    ∃ ms, Managed.Steps ms body body' ∧ ∀ m, m ∈ ms ↔ m = .handler (some verb) := by
  obtain ⟨f, accesses, -, -, rfl⟩ := ensureHandler_takes h
  obtain ⟨ms, hs, hms⟩ := steps_withHandler verb path body
  refine ⟨_, hs.append (step_reading accesses (any_withHandler verb path body)).steps, fun m => ?_⟩
  rw [List.mem_append, List.mem_singleton]
  exact ⟨fun hm => hm.elim (hms m) id, .inr⟩

end ApiRoutes.Route
