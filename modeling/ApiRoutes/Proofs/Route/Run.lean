import ApiRoutes.Proofs.Route.Handler
import ApiRoutes.Route.Merge
/-!
# Runs of merges

What a merge that succeeds makes of a module: the statements of the exported function go through the
steps for the kinds that the endpoint has (`mergeBody_steps`), and all else of the module stays
(`mergeEndpoints_takes`).
-/
namespace ApiRoutes.Route

open Script

/-! ## The exported function's statements -/

/-- The kinds of statements that a method has. -/
def managedOf (verb : Text) : List Managed := [.handler (some verb), .documentation verb]

/-- The kinds of statements that an endpoint has. -/
def managedBy (e : Spec.Endpoint) : List Managed :=
  (if e.parameters.isSome then [.collection] else []) ++ e.verbs.flatMap managedOf ++ [.returns]

theorem mergeOperation_steps {path verb : Text} {o : Spec.Operation} {body body' : List Node}
    {u : Unit} (h : (mergeOperation path verb o).Takes body u body') :
    ∃ ms, Managed.Steps ms body body' ∧ ∀ m, m ∈ ms ↔ m ∈ managedOf verb := by
  unfold mergeOperation at h
  obtain ⟨_, b, he, hd⟩ := h.of_log_bind.of_bind
  obtain ⟨ms, hs, hms⟩ := ensureHandler_steps he
  obtain ⟨entries, value, -, -, rfl⟩ := documentHandler_takes hd
  refine ⟨_, hs.append (step_withDocumentation verb value b).steps, fun m => ?_⟩
  rw [List.mem_append, hms, managedOf]
  simp

theorem mergeOperations_steps {path : Text} :
    ∀ {os : List (Text × Spec.Operation)} {body body' : List Node} {u : Unit},
      (os.forM fun (verb, o) => mergeOperation path verb o).Takes body u body' →
      ∃ ms, Managed.Steps ms body body' ∧ ∀ m, m ∈ ms ↔ m ∈ (os.map (·.1)).flatMap managedOf
  | [], body, _, (), h => by
    rw [h.of_pure]
    exact ⟨[], .nil, fun m => Iff.rfl⟩
  | (verb, o) :: os, _, _, u, h => by
    obtain ⟨_, b, h₁, h₂⟩ := Edit.Takes.of_bind h
    obtain ⟨ms₁, hs₁, hm₁⟩ := mergeOperation_steps h₁
    obtain ⟨ms₂, hs₂, hm₂⟩ := mergeOperations_steps h₂
    refine ⟨ms₁ ++ ms₂, hs₁.append hs₂, fun m => ?_⟩
    rw [List.mem_append, hm₁, hm₂, List.map_cons, List.flatMap_cons, List.mem_append]

/-- What a merge of parameters makes of a list of statements. -/
theorem mergeEndpointParameters_takes {ps : List Spec.Parameter} {body body' : List Node} {u : Unit}
    (h : (mergeEndpointParameters ps).Takes body u body') :
    ∃ ms, (ps.forM putParameter).Takes (membersOf .array body) () ms ∧
      body' = declare (Collection.withMembers ms (collectionNode .array body)) body := by
  obtain ⟨l, l', h⟩ := h
  obtain ⟨l₁, hr⟩ := mergeEndpointParameters_run ps body l
  rw [h] at hr
  dsimp only at hr
  rcases hp : (ps.forM putParameter).runFrom (membersOf .array body) l₁ with ⟨⟨r, ms⟩, l₂⟩
  rw [hp] at hr
  cases hr
  exact ⟨ms, ⟨l₁, _, hp⟩, rfl⟩

/-- What a merge makes of the statements of a route function: first the parameters, then the methods
one by one, then the return. -/
theorem mergeBody_takes {e : Spec.Endpoint} {body body' : List Node} {u : Unit}
    (h : (mergeBody e).Takes body u body') :
    ∃ b₁ b₂, (match e.parameters with
      | some ps => (mergeEndpointParameters ps).Takes body () b₁
      | none => b₁ = body) ∧
      (e.operations.forM fun (verb, o) => mergeOperation e.path verb o).Takes b₁ () b₂ ∧
      body' = offerHandlers e.verbs b₂ := by
  unfold mergeBody at h
  dsimp only at h
  cases hp : e.parameters with
  | none =>
    rw [hp] at h
    obtain ⟨_, b₂, h₂, h₃⟩ := Edit.Takes.of_bind h
    exact ⟨body, b₂, rfl, h₂, h₃.of_modify⟩
  | some ps =>
    rw [hp] at h
    obtain ⟨_, b₁, h₁, h'⟩ := Edit.Takes.of_bind h
    obtain ⟨_, b₂, h₂, h₃⟩ := Edit.Takes.of_bind h'
    exact ⟨b₁, b₂, h₁, h₂, h₃.of_modify⟩

/-- **A merge is steps for the kinds that the endpoint has.** -/
theorem mergeBody_steps {e : Spec.Endpoint} {body body' : List Node} {u : Unit}
    (h : (mergeBody e).Takes body u body') :
    ∃ ms, Managed.Steps ms body body' ∧ ∀ m, m ∈ ms ↔ m ∈ managedBy e := by
  obtain ⟨b₁, b₂, h₁, h₂, rfl⟩ := mergeBody_takes h
  obtain ⟨ms, hs, hms⟩ := mergeOperations_steps h₂
  have hr := step_offerHandlers e.verbs b₂
  unfold managedBy
  cases hp : e.parameters with
  | none =>
    rw [hp] at h₁
    subst h₁
    refine ⟨_, hs.append hr.steps, fun m => ?_⟩
    rw [List.mem_append, hms]
    simp [Spec.Endpoint.verbs]
  | some ps =>
    rw [hp] at h₁
    obtain ⟨members, -, rfl⟩ := mergeEndpointParameters_takes h₁
    refine ⟨_, (Managed.Steps.cons (step_declare _ body) hs).append hr.steps, fun m => ?_⟩
    rw [List.mem_append, List.mem_cons, hms]
    simp [Spec.Endpoint.verbs, or_assoc]

/-! ## The exported function -/

/-- The function that a list of statements exports by default. -/
def exported? (body : List Node) : Option Function :=
  match (body.find? Query.defaultExport.finds).map Node.shape with
  | some (.exportDefault ⟨_, .function f⟩) => some f
  | _ => none

/-- The statements of the function that a module exports by default, none where there is none. -/
def routeBody (p : Program) : List Node := ((exported? p.body).map (·.body)).getD []

/-- A list of statements with a default export, a new one where there is none. -/
def withExport (body : List Node) : List Node :=
  if body.any Query.defaultExport.finds then body else body ++ [newExport]

/-- A default export of a function, with other statements in the function. -/
def exporting (body : List Node) (n : Node) : Node :=
  match n.shape with
  | .exportDefault ⟨l, .function f⟩ => n.withShape (.exportDefault ⟨l, .function { f with body }⟩)
  | _ => n

/-- A module with other statements in the function that it exports by default. -/
def withRouteBody (body : List Node) (p : Program) : Program :=
  { p with body := alterFirst Query.defaultExport.finds (exporting body) (withExport p.body) }

theorem find?_withExport_of_none {body : List Node} (h : body.any Query.defaultExport.finds = false) :
    (withExport body).find? Query.defaultExport.finds = some newExport := by
  have hn := find?_of_not_any h
  rw [withExport, h, if_neg (by simp), List.find?_append, hn]
  rfl

theorem exported?_withExport (body : List Node) :
    exported? (withExport body) =
      if body.any Query.defaultExport.finds then exported? body else some { name := some "endpoint" } := by
  by_cases h : body.any Query.defaultExport.finds = true
  · rw [if_pos h, withExport, if_pos h]
  · rw [if_neg h, exported?, find?_withExport_of_none (Bool.eq_false_iff.2 h)]
    rfl

/-- **Making sure of an exported function** succeeds where there is no default export, or where it
is one of a function. -/
theorem ensureExport_takes {path : Option Text} {body body' : List Node} {i : Nat}
    (h : (ensureExport path).Takes body i body') :
    body' = withExport body ∧ Query.defaultExport.index? body' = some i ∧
      (exported? body').isSome = true := by
  unfold ensureExport at h
  replace h := h.of_get_bind
  dsimp only at h
  have key : ∀ {b : List Node}, b.any Query.defaultExport.finds = true →
      (do
        let body ← get
        let i := (Query.defaultExport.index? body).getD 0
        match body[i]?.map Node.shape with
        | some (.exportDefault ⟨_, .function _⟩) => return i
        | _ => throw (.malformed ⟨path, none, .exportIsNoFunction⟩) : Edit (List Node) Nat).Takes b i body' →
      body' = b ∧ Query.defaultExport.index? body' = some i ∧ (exported? body').isSome = true := by
    intro b hb ht
    obtain ⟨j, hj⟩ := exists_findIdx?_of_any hb
    change Query.defaultExport.index? b = some j at hj
    replace ht := ht.of_get_bind
    dsimp only at ht
    rw [hj, Option.getD_some] at ht
    split at ht
    · rename_i x l f hs
      obtain ⟨l₁, l₂, hr⟩ := ht
      cases hr
      refine ⟨rfl, hj, ?_⟩
      rw [getElem?_of_findIdx? hj] at hs
      rw [exported?, hs]
      rfl
    · exact absurd ht Edit.Takes.not_throw
  cases hi : Query.defaultExport.index? body with
  | none =>
    rw [hi] at h
    have hw : withExport body = body ++ [newExport] := by
      rw [withExport, not_any_of_findIdx? (show body.findIdx? Query.defaultExport.finds = none from hi)]
      rfl
    rw [hw]
    exact key (by rw [List.any_append]; simp [newExport, Query.finds, Node.ofShape, Node.shape])
      h.of_modify_bind
  | some j =>
    rw [hi] at h
    have ha := any_of_findIdx? (show body.findIdx? Query.defaultExport.finds = some j from hi)
    rw [withExport, if_pos ha]
    exact key ha h

theorem find?_exported {body : List Node} {f : Function} (h : exported? body = some f) :
    ∃ l l', body.find? Query.defaultExport.finds = some (.mk l (.exportDefault (.mk l' (.function f)))) := by
  unfold exported? at h
  cases hb : body.find? Query.defaultExport.finds with
  | none => rw [hb] at h; cases h
  | some n =>
    rw [hb] at h
    obtain ⟨l, s⟩ := n
    cases s with
    | exportDefault d =>
      obtain ⟨l', sd⟩ := d
      cases sd <;> cases h
      exact ⟨l, l', rfl⟩
    | _ => cases h

theorem exportedAt_eq {body : List Node} {i : Nat} {f : Function}
    (hi : Query.defaultExport.index? body = some i) (hf : exported? body = some f) :
    exportedAt i body = f := by
  obtain ⟨l, l', hn⟩ := find?_exported hf
  rw [exportedAt, getElem?_of_findIdx? (p := Query.defaultExport.finds) hi, hn]
  rfl

theorem putExported_eq {body body' : List Node} {i : Nat} {f : Function}
    (hi : Query.defaultExport.index? body = some i) (hf : exported? body = some f) :
    putExported i { f with body := body' } body =
      alterFirst Query.defaultExport.finds (exporting body') body := by
  obtain ⟨l, l', hn⟩ := find?_exported hf
  rw [putExported, modify_findIdx? _ hi]
  refine alterFirst_congr fun x hx => ?_
  rw [hn, Option.some.injEq] at hx
  subst hx
  rfl

theorem routeBody_eq {p : Program} {f : Function} (hf : exported? (withExport p.body) = some f) :
    routeBody p = f.body := by
  rw [exported?_withExport] at hf
  rw [routeBody]
  split at hf
  · rw [hf]; rfl
  · rename_i ha
    rw [exported?, find?_of_not_any (Bool.eq_false_iff.2 ha)]
    cases hf
    rfl

/-- **A merge changes the statements of the exported function** and nothing else of a module. -/
theorem mergeEndpoint_takes {e : Spec.Endpoint} {path : Option Text} {p p' : Program} {u : Unit}
    (h : (mergeEndpoint e path).Takes p u p') :
    (exported? (withExport p.body)).isSome = true ∧
      ∃ body, (mergeBody e).Takes (routeBody p) () body ∧ p' = withRouteBody body p := by
  unfold mergeEndpoint onExport onStatements at h
  obtain ⟨body', h', rfl⟩ := h.of_onPart
  obtain ⟨i, b, hx, he⟩ := h'.of_bind
  obtain ⟨rfl, hi, hsome⟩ := ensureExport_takes hx
  obtain ⟨f, hf⟩ := Option.isSome_iff_exists.1 hsome
  obtain ⟨f', hb, rfl⟩ := he.of_onPart
  rw [exportedAt_eq hi hf] at hb
  obtain ⟨body, hm, rfl⟩ := Edit.Takes.of_onPart hb
  refine ⟨hsome, body, ?_, ?_⟩
  · rw [routeBody_eq hf]
    exact hm
  · rw [putExported_eq hi hf]
    rfl

theorem any_withExport (body : List Node) : (withExport body).any Query.defaultExport.finds = true := by
  unfold withExport
  split
  · assumption
  · rw [List.any_append]
    simp [newExport, Query.finds, Node.ofShape, Node.shape]

theorem ensureExport_gives {path : Option Text} {body : List Node} {i : Nat}
    (hi : Query.defaultExport.index? (withExport body) = some i)
    (hx : (exported? (withExport body)).isSome = true) :
    (ensureExport path).Gives body i (withExport body) := by
  obtain ⟨f, hf⟩ := Option.isSome_iff_exists.1 hx
  obtain ⟨l, l', hn⟩ := find?_exported hf
  have hat : (withExport body)[i]?.map Node.shape = some (.exportDefault (.mk l' (.function f))) := by
    rw [getElem?_of_findIdx? (p := Query.defaultExport.finds) hi, hn]
    rfl
  have hrest : (do
      let body ← get
      let i := (Query.defaultExport.index? body).getD 0
      match body[i]?.map Node.shape with
      | some (.exportDefault ⟨_, .function _⟩) => return i
      | _ => throw (.malformed ⟨path, none, .exportIsNoFunction⟩) : Edit (List Node) Nat).Gives
        (withExport body) i (withExport body) := by
    refine Edit.Gives.get_bind ?_
    rw [hi, Option.getD_some]
    dsimp only
    rw [hat]
    exact Edit.Gives.pure i _
  unfold ensureExport
  refine Edit.Gives.get_bind ?_
  cases hb : Query.defaultExport.index? body with
  | none =>
    have hw : withExport body = body ++ [newExport] := by
      rw [withExport, not_any_of_findIdx? (show body.findIdx? Query.defaultExport.finds = none from hb)]
      rfl
    exact Edit.Gives.bind (Edit.Gives.modify hw.symm) hrest
  | some j =>
    have hw : withExport body = body := if_pos (any_of_findIdx? hb)
    rw [hw] at hrest
    rw [hw]
    exact hrest

/-- A default export that is no function is refused. -/
theorem ensureExport_refuses {path : Option Text} {body : List Node} (hx : exported? (withExport body) = none) :
    (ensureExport path).Refuses body (.malformed ⟨path, none, .exportIsNoFunction⟩) body := by
  rw [exported?_withExport] at hx
  split at hx
  · rename_i ha
    obtain ⟨i, hi⟩ := exists_findIdx?_of_any ha
    change Query.defaultExport.index? body = some i at hi
    unfold ensureExport
    refine Edit.Refuses.get_bind ?_
    rw [hi]
    refine Edit.Refuses.get_bind ?_
    rw [hi, Option.getD_some]
    dsimp only
    split
    · rename_i x l f hs
      rw [getElem?_of_findIdx? hi] at hs
      rw [exported?, hs] at hx
      cases hx
    · exact Edit.Refuses.throw _ body
  · cases hx

/-- **An edit of the exported function's statements** is one of the module. -/
theorem onExport_run (e : Edit (List Node) Unit) (path : Option Text) {p : Program}
    (hx : (exported? (withExport p.body)).isSome = true) (l : List Record) :
    ∃ l', (onExport path (onBody e)).runFrom p l = (((e.runFrom (routeBody p) l').1.1,
      withRouteBody (e.runFrom (routeBody p) l').1.2 p), (e.runFrom (routeBody p) l').2) := by
  obtain ⟨f, hf⟩ := Option.isSome_iff_exists.1 hx
  obtain ⟨i, hi⟩ := exists_findIdx?_of_any (any_withExport p.body)
  change Query.defaultExport.index? _ = some i at hi
  obtain ⟨l', hl⟩ : ∃ l', (ensureExport path).runFrom p.body l = ((.ok i, withExport p.body), l') :=
    ensureExport_gives hi hx l
  refine ⟨l', ?_⟩
  unfold onExport onStatements
  rw [Edit.runFrom_onPart, Edit.runFrom_bind, hl]
  dsimp only
  rw [Edit.runFrom_onPart, exportedAt_eq hi hf]
  unfold onBody
  rw [Edit.runFrom_onPart, routeBody_eq hf, putExported_eq hi hf]
  rfl

theorem onExport_gives {e : Edit (List Node) Unit} {path : Option Text} {p : Program} {body : List Node}
    (hx : (exported? (withExport p.body)).isSome = true) (h : e.Gives (routeBody p) () body) :
    (onExport path (onBody e)).Gives p () (withRouteBody body p) := fun l => by
  obtain ⟨l₁, hrun⟩ := onExport_run e path hx l
  obtain ⟨l₂, h⟩ := h l₁
  exact ⟨l₂, by rw [hrun, h]⟩

theorem onExport_refuses {e : Edit (List Node) Unit} {path : Option Text} {p : Program} {body : List Node}
    {x : Failure} (hx : (exported? (withExport p.body)).isSome = true) (h : e.Refuses (routeBody p) x body) :
    (onExport path (onBody e)).Refuses p x (withRouteBody body p) := fun l => by
  obtain ⟨l₁, hrun⟩ := onExport_run e path hx l
  obtain ⟨l₂, h⟩ := h l₁
  exact ⟨l₂, by rw [hrun, h]⟩

/-- **A merge of the statements is one of the module.** -/
theorem mergeEndpoint_gives {e : Spec.Endpoint} {path : Option Text} {p : Program} {body : List Node}
    (hx : (exported? (withExport p.body)).isSome = true)
    (h : (mergeBody e).Gives (routeBody p) () body) :
    (mergeEndpoint e path).Gives p () (withRouteBody body p) :=
  onExport_gives hx h

theorem finds_exporting (body : List Node) (n : Node) :
    Query.defaultExport.finds (exporting body n) = Query.defaultExport.finds n := by
  obtain ⟨l, s⟩ := n
  cases s with
  | exportDefault d =>
    obtain ⟨ld, sd⟩ := d
    cases sd <;> rfl
  | _ => rfl

theorem exporting_exporting (b b' : List Node) (n : Node) :
    exporting b' (exporting b n) = exporting b' n := by
  obtain ⟨l, s⟩ := n
  cases s with
  | exportDefault d =>
    obtain ⟨ld, sd⟩ := d
    cases sd <;> rfl
  | _ => rfl

theorem exported?_withRouteBody (body : List Node) (p : Program) :
    exported? (withRouteBody body p).body =
      (exported? (withExport p.body)).map fun f => { f with body } := by
  rw [withRouteBody, exported?, exported?,
    find?_alterFirst fun n hn => by rw [finds_exporting]; exact hn]
  rcases (withExport p.body).find? Query.defaultExport.finds with _ | ⟨l, s⟩
  · rfl
  · cases s with
    | exportDefault d =>
      obtain ⟨ld, sd⟩ := d
      cases sd <;> rfl
    | _ => rfl

theorem routeBody_withRouteBody {p : Program} (h : (exported? (withExport p.body)).isSome = true)
    (body : List Node) : routeBody (withRouteBody body p) = body := by
  obtain ⟨f, hf⟩ := Option.isSome_iff_exists.1 h
  rw [routeBody, exported?_withRouteBody, hf]
  rfl

theorem withExport_withRouteBody (body : List Node) (p : Program) :
    withExport (withRouteBody body p).body = (withRouteBody body p).body := by
  refine if_pos ?_
  rw [withRouteBody, any_eq_of_map_eq (map_alterFirst (fun n _ => finds_exporting body n) _)]
  exact any_withExport p.body

theorem withRouteBody_withRouteBody (b b' : List Node) (p : Program) :
    withRouteBody b' (withRouteBody b p) = withRouteBody b' p := by
  rw [withRouteBody, withExport_withRouteBody]
  simp only [withRouteBody]
  rw [alterFirst_alterFirst fun n hn => by rw [finds_exporting]; exact hn,
    show exporting b' ∘ exporting b = exporting b' from funext (exporting_exporting b b')]

/-! ## Endpoints one after the other -/

/-- Brings a module up to date with endpoints, one after the other. -/
def mergeEndpoints (es : List Spec.Endpoint) (path : Option Text) : Edit Program Unit :=
  es.forM (mergeEndpoint · path)

/-- **A run of merges takes the exported function's statements through steps** for the kinds that the
endpoints have. -/
theorem mergeEndpoints_takes {path : Option Text} : ∀ {es : List Spec.Endpoint} {p p' : Program}
    {u : Unit}, (mergeEndpoints es path).Takes p u p' →
      (es = [] ∧ p' = p ∨ (exported? (withExport p.body)).isSome = true ∧
        p' = withRouteBody (routeBody p') p) ∧
      ∃ ms, Managed.Steps ms (routeBody p) (routeBody p') ∧ ∀ m, m ∈ ms ↔ m ∈ es.flatMap managedBy
  | [], p, _, (), h => by
    rw [h.of_pure]
    exact ⟨.inl ⟨rfl, rfl⟩, [], .nil, fun m => Iff.rfl⟩
  | e :: es, p, p', u, h => by
    obtain ⟨_, p₁, h₁, h₂⟩ := Edit.Takes.of_bind h
    obtain ⟨hx, b, hb, rfl⟩ := mergeEndpoint_takes h₁
    obtain ⟨ms₁, hs₁, hm₁⟩ := mergeBody_steps hb
    obtain ⟨hp, ms₂, hs₂, hm₂⟩ := mergeEndpoints_takes h₂
    rw [routeBody_withRouteBody hx] at hs₂
    refine ⟨.inr ⟨hx, ?_⟩, ms₁ ++ ms₂, hs₁.append hs₂, fun m => ?_⟩
    · obtain ⟨-, rfl⟩ | ⟨-, hp⟩ := hp
      · rw [routeBody_withRouteBody hx]
      · rwa [withRouteBody_withRouteBody] at hp
    · rw [List.mem_append, hm₁, hm₂, List.flatMap_cons, List.mem_append]

/-! ## A sample -/

/-- An endpoint with parameters of its own and of a method. -/
def sampleEndpoint : Spec.Endpoint where
  path := "/pets"
  parameters := some [{ name := "limit", location := "query" }]
  operations := [
    ("GET", { parameterList := some [{ name := "id", location := "path" }] }),
    ("POST", {})]

/-- A module with a handler of one method and statements around it. -/
def sampleModule : Program where
  body := [
    .ofShape (.imports "db" (.literal (.text "./db"))),
    .ofShape (.exportDefault (.ofShape (.function {
      name := some "pets"
      params := ["db"]
      body := [
        .ofShape (.function {
          name := some "GET"
          params := ["request"]
          body := [.ofShape (.raw "answer(request)" none)] }),
        .ofShape (.returns none),
        .ofShape (.raw "unreachable()" none)] }))),
    .ofShape (.raw "log()" none)]

end ApiRoutes.Route
