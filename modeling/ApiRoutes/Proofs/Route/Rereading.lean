import ApiRoutes.Proofs.Route.Views
/-!
# Merging into what is read again

Statements of a route function of which the same is seen as of statements that are up to date
(`view`): a merge succeeds on them and leaves their text as it is.
-/
namespace ApiRoutes.Route

open Script

/-! ## Views of statements -/

/-- What is seen of the array of an endpoint. -/
def arrayView (body : List Node) : Option (List (Option (List (Option FieldView)))) :=
  (((declaration? body).bind (·.init)).bind Collection.array.members?).map (·.map entryView)

/-- What is seen of a handler. -/
structure HandlerView where
  params : List Text
  /-- What is seen of the members of the object in it. -/
  object : Option (List MemberView)
  deriving DecidableEq

/-- What is seen of a documentation. -/
structure DocumentationView where
  comments : List Comment
  trailing : Option Comment
  text : Outcome Text
  deriving DecidableEq

/-- What is seen of the statements of an endpoint. -/
structure View where
  array : Option (List (Option (List (Option FieldView))))
  handlers : List (Option HandlerView)
  documentation : List (Option DocumentationView)
  returns : Option (Outcome Text)
  deriving DecidableEq

/-- What is seen of the handler of a method. -/
def handlerView (verb : Text) (body : List Node) : Option HandlerView :=
  (Managed.handler? (some verb) body).map fun f =>
    ⟨f.params, (((declaration? f.body).bind (·.init)).bind Collection.object.members?).map
      (·.map memberView)⟩

/-- What is seen of the documentation of a method. -/
def documentationView (verb : Text) (body : List Node) : Option DocumentationView :=
  (body.find? (Managed.documentation verb).finds).map fun n =>
    ⟨n.layout.comments, n.layout.trailing, statementText 1 n⟩

/-- What is seen of the return. -/
def returnView (body : List Node) : Option (Outcome Text) :=
  (body.find? Managed.returns.finds).map (statementText 1)

/-- What is seen of an endpoint among these statements. -/
def view (e : Spec.Endpoint) (body : List Node) : View where
  array := if e.parameters.isSome then arrayView body else none
  handlers := e.verbs.map (handlerView · body)
  documentation := e.verbs.map (documentationView · body)
  returns := returnView body

/-! ## Texts of declarations -/

theorem declaratorTexts_mapDeclarator {level : Nat} {c c' : Node} {name : Text}
    (h : expressionText level c = expressionText level c') : ∀ {ds : List Declarator} {d : Declarator},
      Node.declarator? name ds = some d → d.init = some c →
        declaratorTexts level ds = declaratorTexts level (mapDeclarator name (initialised c') ds)
  | [], _, _, _ => rfl
  | ⟨l, n, init⟩ :: ds, d, hd, hc => by
    rw [Node.declarator?] at hd
    rw [mapDeclarator]
    by_cases hn : n = name
    · rw [List.find?_cons_of_pos (by simpa using hn), Option.some.injEq] at hd
      subst hd
      cases hc
      rw [if_pos hn, initialised, declaratorTexts, declaratorTexts, h]
    · rw [List.find?_cons_of_neg (by simpa using hn)] at hd
      have ih := declaratorTexts_mapDeclarator h hd hc
      rw [if_neg hn]
      cases init with
      | none => rw [declaratorTexts, declaratorTexts, ih]
      | some e => rw [declaratorTexts, declaratorTexts, ih]

/-- **A collection with the same text** in the place of one leaves the statements alike. -/
theorem alike_declare {level : Nat} {c c' : Node} {body : List Node}
    (hi : (declaration? body).bind (·.init) = some c)
    (h : expressionText level c = expressionText level c') :
    List.Forall₂ (Alike level) body (declare c' body) := by
  obtain ⟨d, hd, hc⟩ := Option.bind_eq_some_iff.1 hi
  rw [declare_of_any (by rw [← declaration?_isSome, hd]; rfl), mapVariable_eq]
  refine forall₂_alterFirst Alike.refl fun n hn => ?_
  rw [declaration?_eq, hn, Option.bind_some] at hd
  obtain ⟨l, s⟩ := n
  cases s with
  | «variables» kind ds =>
    refine ⟨rfl, rfl, ?_⟩
    change statementText level (.mk l (.variables kind ds)) = statementText level (.mk l
      (.variables kind (mapDeclarator collectionVariable (initialised c') ds)))
    rw [statementText, statementText, declaratorTexts_mapDeclarator h hd hc]
  | _ => cases hd

/-- Collections of the same text make statements that are alike. -/
theorem alike_declare_of_text {level : Nat} {c c' : Node} (h : expressionText level c = expressionText level c')
    (body : List Node) : List.Forall₂ (Alike level) (declare c body) (declare c' body) := by
  rw [← declare_declare c c' body]
  exact alike_declare (init_declare c body) h

/-! ## The edits again -/

theorem members_of_view {β : Type} {k : Collection} {f : Node → β} {body : List Node} {vs : List β}
    (h : (((declaration? body).bind (·.init)).bind k.members?).map (·.map f) = some vs) :
    ∃ c ns, (declaration? body).bind (·.init) = some c ∧ k.members? c = some ns ∧ ns.map f = vs := by
  obtain ⟨ns, hns, hvs⟩ := Option.map_eq_some_iff.1 h
  obtain ⟨c, hc, hm⟩ := Option.bind_eq_some_iff.1 hns
  exact ⟨c, ns, hc, hm, hvs⟩

theorem membersOf_of_init {k : Collection} {body : List Node} {c : Node} {ms : List Node}
    (h : (declaration? body).bind (·.init) = some c) (hc : k.members? c = some ms) :
    membersOf k body = ms := by
  rw [membersOf, collectionNode_of_init h hc, hc]
  rfl

/-- **The array** is left alike. -/
theorem ArrayUpToDate.gives_alike {ps : List Spec.Parameter} {b c : List Node} (h : ArrayUpToDate ps b)
    (hv : arrayView c = arrayView b) :
    ∃ c', (mergeEndpointParameters ps).Gives c () c' ∧ List.Forall₂ (Alike 1) c c' := by
  obtain ⟨x, ms, xs, hi, hm, hxs, hfix⟩ := h
  have hb : arrayView b = some (ms.map entryView) := by rw [arrayView, hi, Option.bind_some, hm]; rfl
  obtain ⟨y, ns, hy, hn, hview⟩ := members_of_view (hv.trans hb)
  refine ⟨_, mergeEndpointParameters_gives hxs c, alike_declare hy ?_⟩
  rw [collectionNode_of_init hy hn, membersOf_of_init hy hn]
  obtain ⟨l, s⟩ := y
  cases s <;> cases hn
  exact arrayText_congr _ (elementsAlike_foldl_putEntry hfix hview)

theorem init_of_withAccesses {accesses : List Access} {f : Function} (h : withAccesses accesses f = f) :
    ∃ x ms, (declaration? f.body).bind (·.init) = some x ∧ Collection.object.members? x = some ms ∧
      readingMembers accesses ms = ms := by
  have hbody : declare (methodCollection accesses f.body) f.body = f.body :=
    congrArg FunctionOf.body h
  have hi := init_declare (methodCollection accesses f.body) f.body
  rw [hbody] at hi
  have hm := members?_methodCollection accesses f.body
  have hfix := membersOf_of_init hi hm
  rw [← hfix] at hm
  exact ⟨_, _, hi, hm, hfix.symm⟩

/-- **The handler** is left alike. -/
theorem HandlerUpToDate.gives_alike {verb : Text} {o : Spec.Operation} {b c : List Node}
    (h : HandlerUpToDate verb o b) (hv : handlerView verb c = handlerView verb b) (path : Text) :
    ∃ c', (ensureHandler verb path o).Gives c () c' ∧ List.Forall₂ (Alike 1) c c' := by
  obtain ⟨f, accesses, hf, ha, hfix⟩ := h
  obtain ⟨x, ms, hx, hm, hms⟩ := init_of_withAccesses hfix
  have hb : handlerView verb b = some ⟨f.params, some (ms.map memberView)⟩ := by
    rw [handlerView, hf, Option.map_some, hx, Option.bind_some, hm]
    rfl
  obtain ⟨g, hg, hview⟩ := Option.map_eq_some_iff.1 (hv.trans hb)
  rw [HandlerView.mk.injEq] at hview
  obtain ⟨hparams, hobject⟩ := hview
  obtain ⟨y, ns, hy, hn, hns⟩ := members_of_view hobject
  have hrequest : ∀ a ∈ accesses, a.request = requestName f.params := by
    rw [mapM_accessTo ha]
    simp
  refine ⟨_, ensureHandler_gives hg (hparams ▸ ha), forall₂_alterFirst Alike.refl fun n hfind => ?_⟩
  obtain ⟨l, hl⟩ := Managed.find?_handler hg
  rw [hl, Option.some.injEq] at hfind
  subst hfind
  refine ⟨rfl, rfl, functionText_congr (alike_declare hy ?_)⟩
  rw [methodCollection, collectionNode_of_init hy hn, membersOf_of_init hy hn]
  obtain ⟨ly, s⟩ := y
  cases s <;> cases hn
  exact objectText_congr _ (entriesAlike_readingMembers hrequest hms hns)

theorem documentingFor_eq (verb : Text) (value n : Node) :
    documentingFor verb value n = .mk
      ⟨Node.lineComments ("Documentation for method " ++ verb), none, n.layout.blankBefore⟩
      (documenting verb value).shape := by
  simp only [documentingFor, documenting, Node.withComments, Node.statement, Node.ofShape,
    Node.withLayout, Node.layout, Node.shape]

/-- **The documentation** is left alike. -/
theorem DocumentationUpToDate.gives_alike {verb : Text} {o : Spec.Operation} {b c : List Node}
    (h : DocumentationUpToDate verb o b) (hv : documentationView verb c = documentationView verb b) :
    ∃ c', (documentHandler verb o).Gives c () c' ∧ List.Forall₂ (Alike 1) c c' := by
  obtain ⟨entries, value, m, he, hvalue, hm, hfix⟩ := h
  rw [documentationView, documentationView, hm] at hv
  obtain ⟨n, hn, hview⟩ := Option.map_eq_some_iff.1 hv
  rw [← hfix, documentingFor_eq, DocumentationView.mk.injEq] at hview
  obtain ⟨hcomments, htrailing, htext⟩ := hview
  refine ⟨_, documentHandler_gives he hvalue c, ?_⟩
  rw [withDocumentation, if_pos (any_of_find? hn)]
  refine forall₂_alterFirst Alike.refl fun x hx => ?_
  rw [hn, Option.some.injEq] at hx
  subst hx
  have hfound := List.find?_some hn
  obtain ⟨⟨comments, trailing, blankBefore⟩, s⟩ := n
  cases hcomments
  cases htrailing
  cases s with
  | expression e => exact ⟨rfl, rfl, htext.trans (statementText_layout _ _ _)⟩
  | _ => cases hfound

/-- **The return** is left alike. -/
theorem ReturnUpToDate.alike {verbs : List Text} {b c : List Node} (h : ReturnUpToDate verbs b)
    (hv : returnView c = returnView b) : List.Forall₂ (Alike 1) c (offerHandlers verbs c) := by
  obtain ⟨⟨lm, sm⟩, hm, hfix⟩ := h
  rw [returnView, returnView, hm] at hv
  obtain ⟨n, hn, htext⟩ := Option.map_eq_some_iff.1 hv
  rw [Route.offerHandlers_eq, if_pos (any_of_find? hn)]
  refine forall₂_alterFirst Alike.refl fun x hx => ?_
  rw [hn, Option.some.injEq] at hx
  subst hx
  have hfound := List.find?_some hn
  obtain ⟨l, s⟩ := n
  cases hfix
  cases s with
  | returns e => exact ⟨rfl, rfl, htext.trans (statementText_layout _ _ _)⟩
  | _ => cases hfound

/-! ## Views after steps -/

theorem handlerView_steps {ms : List Managed} {verb : Text} {a b : List Node} (hs : Managed.Steps ms a b)
    (hm : .handler (some verb) ∉ ms) : handlerView verb b = handlerView verb a := by
  rw [handlerView, handlerView, Managed.handler?_eq_of_find? (hs.find? hm)]

theorem documentationView_steps {ms : List Managed} {verb : Text} {a b : List Node}
    (hs : Managed.Steps ms a b) (hm : .documentation verb ∉ ms) :
    documentationView verb b = documentationView verb a := by
  rw [documentationView, documentationView, hs.find? hm]

theorem returnView_steps {ms : List Managed} {a b : List Node} (hs : Managed.Steps ms a b)
    (hm : .returns ∉ ms) : returnView b = returnView a := by
  rw [returnView, returnView, hs.find? hm]

/-- The same is seen of a method in two lists of statements. -/
structure MethodSeen (verb : Text) (b c : List Node) : Prop where
  handler : handlerView verb c = handlerView verb b
  documentation : documentationView verb c = documentationView verb b

theorem MethodSeen.steps {ms : List Managed} {verb : Text} {b c c' : List Node}
    (h : MethodSeen verb b c) (hs : Managed.Steps ms c c') (hm : ∀ m ∈ managedOf verb, m ∉ ms) :
    MethodSeen verb b c' :=
  ⟨(handlerView_steps hs (hm _ (by simp [managedOf]))).trans h.handler,
    (documentationView_steps hs (hm _ (by simp [managedOf]))).trans h.documentation⟩

/-! ## A merge again -/

/-- **The statements of a method** are left alike. -/
theorem MethodUpToDate.gives_alike {verb : Text} {o : Spec.Operation} {b c : List Node}
    (h : MethodUpToDate verb o b) (hv : MethodSeen verb b c) (path : Text) :
    ∃ c', (mergeOperation path verb o).Gives c () c' ∧ List.Forall₂ (Alike 1) c c' := by
  obtain ⟨c₁, hg₁, ha₁⟩ := h.handler.gives_alike hv.handler path
  obtain ⟨ms, hs, hms⟩ := ensureHandler_steps hg₁.takes
  have hd : documentationView verb c₁ = documentationView verb b :=
    (documentationView_steps hs fun hm => by cases (hms _).1 hm).trans hv.documentation
  obtain ⟨c₂, hg₂, ha₂⟩ := h.documentation.gives_alike hd
  exact ⟨c₂, (Edit.Gives.log _ _ c).bind (hg₁.bind hg₂), Alike.forall₂_trans ha₁ ha₂⟩

theorem mergeOperations_gives_alike {path : Text} {b : List Node} :
    ∀ {os : List (Text × Spec.Operation)} {c : List Node}, (os.map (·.1)).Nodup →
      (∀ x ∈ os, MethodUpToDate x.1 x.2 b) → (∀ x ∈ os, MethodSeen x.1 b c) →
      ∃ c', (os.forM fun (verb, o) => mergeOperation path verb o).Gives c () c' ∧
        List.Forall₂ (Alike 1) c c'
  | [], c, _, _, _ => ⟨c, Edit.Gives.pure () c, List.forall₂_same.2 fun n _ => Alike.refl n⟩
  | (verb, o) :: os, c, hnodup, h, hv => by
    rw [List.map_cons, List.nodup_cons] at hnodup
    obtain ⟨c₁, hg₁, ha₁⟩ := (h _ List.mem_cons_self).gives_alike (hv _ List.mem_cons_self) path
    obtain ⟨ms, hs, hms⟩ := mergeOperation_steps hg₁.takes
    have hv₁ : ∀ x ∈ os, MethodSeen x.1 b c₁ := fun x hx => by
      refine (hv x (List.mem_cons_of_mem _ hx)).steps hs fun m hm hm' => ?_
      have hne : x.1 ≠ verb := fun he => hnodup.1 (he ▸ List.mem_map.2 ⟨x, hx, rfl⟩)
      exact managedOf_disjoint hne m hm ((hms m).1 hm')
    obtain ⟨c₂, hg₂, ha₂⟩ := mergeOperations_gives_alike hnodup.2
      (fun x hx => h x (List.mem_cons_of_mem _ hx)) hv₁
    exact ⟨c₂, hg₁.bind hg₂, Alike.forall₂_trans ha₁ ha₂⟩

theorem mergeMethods_gives_alike {e : Spec.Endpoint} {b c : List Node} (h : UpToDate e b)
    (hm : ∀ x ∈ e.operations, MethodSeen x.1 b c) (hr : returnView c = returnView b) :
    ∃ c', (do
      e.operations.forM fun (verb, o) => mergeOperation e.path verb o
      modify (offerHandlers e.verbs) : Edit (List Node) Unit).Gives c () c' ∧
        List.Forall₂ (Alike 1) c c' := by
  obtain ⟨c₁, hg, ha⟩ := mergeOperations_gives_alike e.distinct h.methods hm
  obtain ⟨ms, hs, hms⟩ := mergeOperations_steps hg.takes
  have hno : .returns ∉ ms := fun hmem => by
    obtain ⟨v, -, hv⟩ := List.mem_flatMap.1 ((hms _).1 hmem)
    simp [managedOf] at hv
  exact ⟨_, hg.bind (Edit.Gives.modify rfl),
    Alike.forall₂_trans ha (h.returns.alike ((returnView_steps hs hno).trans hr))⟩

/-- **A merge into statements of which the same is seen** as of statements that are up to date succeeds
and leaves them alike. -/
theorem UpToDate.gives_alike {e : Spec.Endpoint} {b c : List Node} (h : UpToDate e b)
    (hv : view e c = view e b) :
    ∃ c', (mergeBody e).Gives c () c' ∧ List.Forall₂ (Alike 1) c c' := by
  rw [view, view, View.mk.injEq] at hv
  obtain ⟨harray, hhandlers, hdocumentation, hreturns⟩ := hv
  have hmethods : ∀ x ∈ e.operations, MethodSeen x.1 b c := fun x hx =>
    ⟨List.map_inj_left.1 hhandlers x.1 (List.mem_map_of_mem hx),
      List.map_inj_left.1 hdocumentation x.1 (List.mem_map_of_mem hx)⟩
  unfold mergeBody
  cases hp : e.parameters with
  | none => exact mergeMethods_gives_alike h hmethods hreturns
  | some ps =>
    rw [hp] at harray
    obtain ⟨c₁, hg₁, ha₁⟩ := (h.array ps hp).gives_alike harray
    obtain ⟨ms, -, hc₁⟩ := mergeEndpointParameters_takes hg₁.takes
    have hs : Managed.Steps [.collection] c c₁ := hc₁ ▸ (step_declare _ c).steps
    have hm₁ : ∀ x ∈ e.operations, MethodSeen x.1 b c₁ := fun x hx =>
      (hmethods x hx).steps hs (by simp [managedOf])
    have hr₁ : returnView c₁ = returnView b := (returnView_steps hs (by simp)).trans hreturns
    obtain ⟨c₂, hg₂, ha₂⟩ := mergeMethods_gives_alike h hm₁ hr₁
    exact ⟨c₂, hg₁.bind hg₂, Alike.forall₂_trans ha₁ ha₂⟩

end ApiRoutes.Route
