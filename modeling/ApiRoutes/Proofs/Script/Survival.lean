import ApiRoutes.Proofs.Script.Readings
/-!
# What is read is kept

Whatever is read from a source can be printed, and its words carry the comments of the source:
each is a comment of the script tree, or stands within text that is kept (`parse_keeps_comments`).
The reading takes some constructs apart without a look at the comments right in them, which are
lost (`parse_loses_comment`); `Concrete.isFaithful` says that there are none.
-/
namespace ApiRoutes.Script

open Concrete (commentsOf commentsOf_append areFaithful areFaithful_iff childrenIn readParts)

variable {t u : Concrete} {ts us : List Concrete} {kind : Kind} {role : Role} {role? : Option Role} {span : Span}

theorem stringLiteral_ok {s : Shape} (h : stringLiteral t = .ok s) : ∃ v raw, s = .literal v (some raw) := by
  obtain ⟨⟨v, raw⟩, -, h⟩ := bind_eq_ok.1 h
  cases h
  exact ⟨_, _, rfl⟩

theorem remarks_kept (ts : List Text) : remarks (ts.map .kept) = ts.map .inr := by
  simp [remarks, List.filterMap_map, Function.comp_def, Word.remark?]

theorem remarks_flatMap {α : Type} (f : α → List Word) (as : List α) :
    remarks (as.flatMap f) = as.flatMap fun a => remarks (f a) := by
  simp [remarks, List.filterMap_flatMap]

theorem remarks_headWords (name : Option Text) (params : List Text) (isAsync : Bool) :
    remarks (headWords name params isAsync) = (name.toList ++ params).map .inr := by
  have hasync : remarks (if isAsync then [Word.sign "async"] else []) = [] := by
    split <;> rfl
  have hparams : remarks (commaWords (params.map fun p => [.kept p])) = params.map .inr := by
    rw [remarks_commaWords, List.flatMap_map]
    exact List.flatMap_pure_eq_map _ _
  simp [headWords, remarks_append, remarks_kept, hasync, hparams]

theorem functionOf_survives {body : Reading (List Node)} {f : Function} (h : functionOf ts body = .ok f)
    (hbody : ∀ ns, body = .ok ns → ∃ t, childIn? .body ts = some t ∧ (∀ L previous, ∃ ls, blockLines L previous ns = .ok ls) ∧
      (areFaithful t.children = true → Carries t.children (blockWords ns))) :
    Prints functionText f ∧ (areFaithful ts = true → Carries (childrenIn ts [.name] ++
      (childrenIn ts [.parameters, .body]).flatMap Concrete.children) (functionWords f)) := by
  unfold functionOf at h
  obtain ⟨params, hparams, h⟩ := bind_eq_ok.1 h
  obtain ⟨ns, hns, h⟩ := bind_eq_ok.1 h
  cases h
  obtain ⟨b, hb, hlines, hcarries⟩ := hbody ns hns
  unfold parametersOf at hparams
  obtain ⟨p, hp, hparams⟩ := bind_eq_ok.1 hparams
  obtain ⟨-, -, hparams⟩ := bind_eq_ok.1 hparams
  cases hparams
  have hp := childIn_ok hp
  refine ⟨fun L => ?_, fun hts => ?_⟩
  · obtain ⟨ls, hls⟩ := hlines (L + 1) none
    cases ns with
    | nil => exact ⟨_, rfl⟩
    | cons n ns => exact ⟨_, by rw [functionText, hls, ok_bind]; rfl⟩
  · have hpf := children_faithful (childIn_faithful hp hts) (by simp) (childIn_role hp)
    have hbf := children_faithful (childIn_faithful hb hts) (by simp) (childIn_role hb)
    have hname : Carries (childrenIn ts [.name]) (((childIn? .name ts).map Concrete.text).toList.map .kept) := by
      cases hn : childIn? .name ts with
      | none =>
        rw [childrenIn_none hn]
        exact .nil
      | some t =>
        rw [childrenIn_cons hn]
        exact .kept t
    have := hname.append ((named_carries hpf).append (hcarries hbf))
    rw [childrenIn_cons hp, childrenIn_cons hb]
    refine .congr (by simp [childrenIn_nil]) ?_ this
    have hkept : (p.children.filter Concrete.isNamed).map (fun t => Word.kept t.text) =
        (p.named.map Concrete.text).map .kept := by
      rw [List.map_map]
      rfl
    rw [functionWords, hkept]
    simp only [remarks_append, remarks_headWords, remarks_kept, remarks_sign, remarks_nil, List.append_nil, List.map_append,
      List.append_assoc]

theorem importOf_survives {s : Shape} (h : importOf ts = .ok s) :
    Survives statementText statementWords [.node .importStatement role? span ts] (.ofShape s) := by
  unfold importOf at h
  obtain ⟨-, -, h⟩ := bind_eq_ok.1 h
  obtain ⟨source, -, h⟩ := bind_eq_ok.1 h
  split at h
  · rename_i clause hclause
    obtain ⟨-, -, h⟩ := bind_eq_ok.1 h
    split at h
    · rename_i n hn
      split at h
      · cases h
      obtain ⟨s, hs, h⟩ := bind_eq_ok.1 h
      cases h
      obtain ⟨v, raw, rfl⟩ := stringLiteral_ok hs
      refine .node rfl rfl (by simp) (fun _ => ⟨_, rfl⟩) fun hts => ?_
      have hfilter : clause ∈ ts.filter (·.kind == .importClause) := hclause ▸ List.mem_singleton_self clause
      obtain ⟨hmem, hkind⟩ := List.mem_filter.1 hfilter
      have hkind : clause.kind = .importClause := eq_of_beq hkind
      have hcf : areFaithful clause.children = true := by
        obtain ⟨kind, role, span, children⟩ := clause
        cases hkind
        exact (comments_of_faithful (areFaithful_iff.1 hts _ hmem) rfl (by simp)).2
      have := named_carries hcf
      rw [Concrete.named] at hn
      rw [readParts, hclause]
      rw [hn] at this
      exact .congr (by simp) rfl this
    · cases h
  · cases h

theorem map_ok {ε α β : Type} {x : Except ε α} {f : α → β} {b : β} (h : f <$> x = .ok b) : ∃ a, x = .ok a ∧ b = f a := by
  cases x with
  | error e => cases h
  | ok a =>
    cases h
    exact ⟨a, rfl, rfl⟩

theorem exported_prints {e : Node} {L : Nat} {u : Text} (h : expressionText L e = .ok u) :
    ∃ u, statementText L (.ofShape (.exportDefault e)) = .ok u := by
  rw [Node.ofShape, statementText, h, ok_bind]
  split
  · exact ⟨_, rfl⟩
  · exact ⟨_, rfl⟩

mutual

theorem readExpression_survives : ∀ (t : Concrete) {n : Node}, readExpression t = .ok n →
    Survives expressionText expressionWords [t] n
  | .node kind role span children, n, h => by
    unfold readExpression at h
    obtain rfl | ⟨s, hs, rfl⟩ := orKeep_ok h
    · exact .keep_expression _
    clear h
    cases kind with
    | identifier =>
      cases hs
      exact .leaf rfl rfl (by simp) (fun _ => ⟨_, rfl⟩) rfl rfl
    | string =>
      obtain ⟨v, raw, rfl⟩ := stringLiteral_ok hs
      exact .leaf rfl rfl (by simp) (fun _ => ⟨_, rfl⟩) rfl rfl
    | number =>
      dsimp only at hs
      split at hs <;> cases hs
      exact .leaf rfl rfl (by simp) (fun _ => ⟨_, rfl⟩) rfl rfl
    | truth b =>
      cases hs
      exact .leaf rfl rfl (by simp) (fun _ => ⟨_, rfl⟩) rfl rfl
    | null =>
      cases hs
      exact .leaf rfl rfl (by simp) (fun _ => ⟨_, rfl⟩) rfl rfl
    | member =>
      obtain ⟨-, -, hs⟩ := bind_eq_ok.1 hs
      obtain ⟨p, -, hs⟩ := bind_eq_ok.1 hs
      split at hs
      · cases hs
      obtain ⟨o, ho, hs⟩ := bind_eq_ok.1 hs
      cases hs
      obtain ⟨t, ht, hsurvives⟩ := readExpressionIn_survives .object children ho
      refine .node rfl rfl (by simp) (fun L => ?_) fun hts => ?_
      · obtain ⟨u, hu⟩ := hsurvives.prints L
        exact ⟨_, by rw [Node.ofShape, expressionText, hu]; rfl⟩
      · rw [readParts, childrenIn_cons ht]
        exact .congr rfl (by simp [Node.ofShape, expressionWords, remarks_append])
          (.of_childIn ht hts hsurvives.carries)
    | subscript =>
      obtain ⟨-, -, hs⟩ := bind_eq_ok.1 hs
      obtain ⟨p, -, hs⟩ := bind_eq_ok.1 hs
      split at hs
      · cases hs
      obtain ⟨o, ho, hs⟩ := bind_eq_ok.1 hs
      obtain ⟨x, -, hs⟩ := bind_eq_ok.1 hs
      cases hs
      obtain ⟨t, ht, hsurvives⟩ := readExpressionIn_survives .object children ho
      refine .node rfl rfl (by simp) (fun L => ?_) fun hts => ?_
      · obtain ⟨u, hu⟩ := hsurvives.prints L
        exact ⟨_, by rw [Node.ofShape, expressionText, hu]; rfl⟩
      · rw [readParts, childrenIn_cons ht]
        exact .congr rfl (by simp [Node.ofShape, expressionWords, remarks_append])
          (.of_childIn ht hts hsurvives.carries)
    | call =>
      obtain ⟨-, -, hs⟩ := bind_eq_ok.1 hs
      obtain ⟨p, -, hs⟩ := bind_eq_ok.1 hs
      split at hs
      · cases hs
      obtain ⟨f, hf, hs⟩ := bind_eq_ok.1 hs
      obtain ⟨-, -, hs⟩ := bind_eq_ok.1 hs
      obtain ⟨as, has, hs⟩ := bind_eq_ok.1 hs
      cases hs
      obtain ⟨t, ht, hcallee⟩ := readExpressionIn_survives .callee children hf
      obtain ⟨u, hu, harguments⟩ := readArgumentsIn_survives children has
      refine .node rfl rfl (by simp) (fun L => ?_) fun hts => ?_
      · obtain ⟨v, hv⟩ := hcallee.prints L
        obtain ⟨vs, hvs⟩ := exists_mapM_ok.2 fun a ha => harguments.prints a ha L
        exact ⟨_, by rw [Node.ofShape, expressionText, expressionTexts_eq, hvs, ok_bind, hv]; rfl⟩
      · rw [readParts, childrenIn_cons ht, childrenIn_cons hu]
        have huf := children_faithful (childIn_faithful hu hts) (by simp) (childIn_role hu)
        refine .congr (by simp [childrenIn_nil]) ?_ ((Carries.of_childIn ht hts hcallee.carries).append (harguments.carries huf))
        simp [Node.ofShape, expressionWords, remarks_append, remarks_commaWords, argumentWords_eq, List.flatMap_map,
          remarks_flatMap]
    | assignment =>
      obtain ⟨a, ha, hs⟩ := bind_eq_ok.1 hs
      obtain ⟨v, hv, hs⟩ := bind_eq_ok.1 hs
      cases hs
      obtain ⟨t, ht, htarget⟩ := readExpressionIn_survives .left children ha
      obtain ⟨u, hu, hvalue⟩ := readExpressionIn_survives .right children hv
      refine .node rfl rfl (by simp) (fun L => ?_) fun hts => ?_
      · obtain ⟨x, hx⟩ := htarget.prints L
        obtain ⟨y, hy⟩ := hvalue.prints L
        exact ⟨_, by rw [Node.ofShape, expressionText, hx, ok_bind, hy]; rfl⟩
      · rw [readParts, childrenIn_cons ht, childrenIn_cons hu]
        exact .congr rfl (by simp [Node.ofShape, expressionWords, remarks_append])
          ((Carries.of_childIn ht hts htarget.carries).append (.of_childIn hu hts hvalue.carries))
    | object =>
      obtain ⟨ps, hps, hs⟩ := bind_eq_ok.1 hs
      cases hs
      rw [readEntries_eq] at hps
      obtain ⟨hprints, hcarries⟩ := literal_survives entryPart_layout entryText_layout (readEntries_survive children) hps
      refine .node rfl rfl (by simp) (object_prints hprints) fun hts => .congr rfl ?_ (hcarries hts)
      simp [Node.ofShape, expressionWords, remarks_append, entryWords_eq]
    | array =>
      dsimp only at hs
      split at hs
      · cases hs
      obtain ⟨es, hes, hs⟩ := bind_eq_ok.1 hs
      cases hs
      rw [readElements_eq] at hes
      obtain ⟨hprints, hcarries⟩ :=
        literal_survives expressionWords_layout expressionText_layout (readElements_survive children) hes
      refine .node rfl rfl (by simp) (array_prints hprints) fun hts => .congr rfl ?_ (hcarries hts)
      simp [Node.ofShape, expressionWords, remarks_append, elementWords_eq]
    | _ => cases hs

theorem readExpressionIn_survives (role : Role) : ∀ (ts : List Concrete) {n : Node}, readExpressionIn role ts = .ok n →
    ∃ t, childIn? role ts = some t ∧ Survives expressionText expressionWords [t] n
  | [], n, h => by cases h
  | t :: rest, n, h => by
    rw [readExpressionIn] at h
    rw [childIn?_cons]
    by_cases ht : t.role == some role
    · rw [if_pos ht] at h ⊢
      exact ⟨t, rfl, readExpression_survives t h⟩
    · rw [if_neg ht] at h ⊢
      exact readExpressionIn_survives role rest h

theorem readArgumentsIn_survives : ∀ (ts : List Concrete) {ns : List Node}, readArgumentsIn ts = .ok ns →
    ∃ t, childIn? .arguments ts = some t ∧ AllSurvive expressionText expressionWords t.children ns
  | [], ns, h => by cases h
  | .node kind role span children :: rest, ns, h => by
    rw [readArgumentsIn] at h
    rw [childIn?_cons, Concrete.role]
    by_cases ht : role == some .arguments
    · rw [if_pos ht] at h ⊢
      exact ⟨_, rfl, readExpressions_survive children h⟩
    · rw [if_neg ht] at h ⊢
      exact readArgumentsIn_survives rest h

theorem readExpressions_survive : ∀ (ts : List Concrete) {ns : List Node}, readExpressions ts = .ok ns →
    AllSurvive expressionText expressionWords ts ns
  | [], ns, h => by
    cases h
    exact ⟨fun _ hn => (by cases hn), fun _ => .nil⟩
  | t :: rest, ns, h => by
    rw [readExpressions] at h
    by_cases ht : t.isNamed
    · rw [if_pos ht] at h
      obtain ⟨e, he, h⟩ := bind_eq_ok.1 h
      obtain ⟨es, hes, h⟩ := bind_eq_ok.1 h
      cases h
      have hfirst := readExpression_survives t he
      have hrest := readExpressions_survive rest hes
      refine ⟨fun n hn => ?_, fun hts => ?_⟩
      · obtain rfl | hn := List.mem_cons.1 hn
        · exact hfirst.prints
        · exact hrest.prints n hn
      · obtain ⟨ht, hts⟩ := Bool.and_eq_true_iff.1 hts
        exact (hfirst.carries (areFaithful_single ht)).append (hrest.carries hts)
    · rw [if_neg ht] at h
      have hrest := readExpressions_survive rest h
      refine ⟨hrest.prints, fun hts => ?_⟩
      obtain ⟨htf, hts⟩ := Bool.and_eq_true_iff.1 hts
      exact .congr (by simp [commentsOf, token_comments htf (by simpa using ht)]) rfl (hrest.carries hts)

theorem readElements_survive : ∀ ts : List Concrete, ∀ t ∈ ts, ∀ n, readExpression t = .ok n →
    Survives expressionText expressionWords [t] n
  | [], _, h => by cases h
  | u :: rest, t, h => by
    have hfirst := @readExpression_survives u
    have hrest := readElements_survive rest
    cases h with
    | head => exact fun n => hfirst
    | tail _ h => exact hrest t h

theorem readEntry_survives : ∀ (t : Concrete) {n : Node}, readEntry t = .ok n → Survives entryText entryPart [t] n
  | .node kind role span children, n, h => by
    unfold readEntry at h
    obtain rfl | ⟨s, hs, rfl⟩ := orKeep_ok h
    · exact .keep_entry _
    clear h
    cases kind with
    | shorthand =>
      cases hs
      exact .leaf rfl rfl (by simp) (fun _ => ⟨_, rfl⟩) rfl rfl
    | pair =>
      obtain ⟨k, -, hs⟩ := bind_eq_ok.1 hs
      obtain ⟨key, -, hs⟩ := bind_eq_ok.1 hs
      obtain ⟨v, hv, hs⟩ := bind_eq_ok.1 hs
      cases hs
      obtain ⟨t, ht, hvalue⟩ := readExpressionIn_survives .value children hv
      refine .node rfl rfl (by simp) (fun L => ?_) fun hts => ?_
      · obtain ⟨u, hu⟩ := hvalue.prints L
        exact ⟨_, by rw [Node.ofShape, entryText, hu]; rfl⟩
      · rw [readParts, childrenIn_cons ht]
        exact .congr rfl (by simp [Node.ofShape, entryPart]) (.of_childIn ht hts hvalue.carries)
    | _ => cases hs

theorem readEntries_survive : ∀ ts : List Concrete, ∀ t ∈ ts, ∀ n, readEntry t = .ok n →
    Survives entryText entryPart [t] n
  | [], _, h => by cases h
  | u :: rest, t, h => by
    have hfirst := @readEntry_survives u
    have hrest := readEntries_survive rest
    cases h with
    | head => exact fun n => hfirst
    | tail _ h => exact hrest t h

theorem readStatement_survives : ∀ (t : Concrete) {n : Node}, readStatement t = .ok n →
    Survives statementText statementWords [t] n
  | .node kind role span children, n, h => by
    unfold readStatement at h
    obtain rfl | ⟨s, hs, rfl⟩ := orKeep_ok h
    · exact .keep_statement _
    clear h
    cases kind with
    | functionDeclaration =>
      obtain ⟨f, hf, hs⟩ := bind_eq_ok.1 hs
      cases hs
      obtain ⟨hprints, hcarries⟩ := functionOf_survives hf fun ns hns => readBodyIn_survives children hns
      exact .node rfl rfl (by simp) (fun L => by simpa [Node.ofShape, statementText] using hprints L) fun hts => hcarries hts
    | declaration =>
      obtain ⟨-, -, hs⟩ := bind_eq_ok.1 hs
      obtain ⟨ds, hds, hs⟩ := bind_eq_ok.1 hs
      obtain ⟨hprints, hcarries⟩ := readDeclarators_survive children hds
      split at hs <;> cases hs
      rename_i word role' span' cs rest
      refine .node rfl rfl (by simp) (fun L => ?_) fun hts => .congr rfl ?_ (hcarries hts)
      · obtain ⟨us, hus⟩ := hprints L
        exact ⟨_, by rw [Node.ofShape, statementText, hus]; rfl⟩
      · simp [Node.ofShape, statementWords, remarks_append, remarks_commaWords, ← List.flatMap_id, remarks_flatMap]
    | expressionStatement =>
      obtain ⟨-, -, hs⟩ := bind_eq_ok.1 hs
      obtain ⟨es, hes, hs⟩ := bind_eq_ok.1 hs
      obtain ⟨e, rfl, rfl⟩ : ∃ e, es = [e] ∧ s = .expression e := by
        split at hs <;> cases hs
        exact ⟨_, rfl, rfl⟩
      have hall := readExpressions_survive children hes
      refine .node rfl rfl (by simp) (fun L => ?_) fun hts => .congr rfl ?_ (hall.carries hts)
      · obtain ⟨u, hu⟩ := hall.prints e (by simp) L
        exact ⟨_, by rw [Node.ofShape, statementText, hu]; rfl⟩
      · simp [Node.ofShape, statementWords, remarks_append]
    | returnStatement =>
      obtain ⟨-, -, hs⟩ := bind_eq_ok.1 hs
      obtain ⟨es, hes, hs⟩ := bind_eq_ok.1 hs
      have hall := readExpressions_survive children hes
      obtain ⟨rfl, rfl⟩ | ⟨e, rfl, rfl⟩ : es = [] ∧ s = .returns none ∨ ∃ e, es = [e] ∧ s = .returns (some e) := by
        split at hs <;> cases hs
        · exact .inl ⟨rfl, rfl⟩
        · exact .inr ⟨_, rfl, rfl⟩
      · exact .node rfl rfl (by simp) (fun _ => ⟨_, rfl⟩) fun hts => .congr rfl rfl (hall.carries hts)
      · refine .node rfl rfl (by simp) (fun L => ?_) fun hts => .congr rfl ?_ (hall.carries hts)
        · obtain ⟨u, hu⟩ := hall.prints e (by simp) L
          exact ⟨_, by rw [Node.ofShape, statementText, hu]; rfl⟩
        · simp [Node.ofShape, statementWords, remarks_append]
    | importStatement => exact importOf_survives hs
    | exportStatement =>
      dsimp only at hs
      split at hs
      · split at hs
        · rename_i hdeclaration
          obtain ⟨t, ht, hsurvives⟩ := readExported_survives .declaration children hs
          refine .node hsurvives.entry rfl (by simp) hsurvives.prints fun hts => ?_
          rw [readParts, ht]
          exact .of_childIn ht hts hsurvives.carries
        · rename_i hdeclaration
          obtain ⟨t, ht, hsurvives⟩ := readExported_survives .value children hs
          refine .node hsurvives.entry rfl (by simp) hsurvives.prints fun hts => ?_
          rw [readParts, Option.not_isSome_iff_eq_none.1 hdeclaration, ht]
          exact .of_childIn ht hts hsurvives.carries
      · cases hs
    | _ => cases hs

theorem readStatements_survive : ∀ ts : List Concrete, ∀ t ∈ ts, ∀ n, readStatement t = .ok n →
    Survives statementText statementWords [t] n
  | [], _, h => by cases h
  | u :: rest, t, h => by
    have hfirst := @readStatement_survives u
    have hrest := readStatements_survive rest
    cases h with
    | head => exact fun n => hfirst
    | tail _ h => exact hrest t h

theorem readDeclarators_survive : ∀ (ts : List Concrete) {ds : List Declarator}, readDeclarators ts = .ok ds →
    Prints declaratorTexts ds ∧ (areFaithful ts = true → Carries ts (declaratorWords ds).flatten)
  | [], ds, h => by
    cases h
    exact ⟨fun _ => ⟨_, rfl⟩, fun _ => .nil⟩
  | .node kind role span children :: rest, ds, h => by
    unfold readDeclarators at h
    cases kind with
    | token s =>
      obtain ⟨hprints, hcarries⟩ := readDeclarators_survive rest h
      refine ⟨hprints, fun hts => ?_⟩
      obtain ⟨ht, hts⟩ := Bool.and_eq_true_iff.1 hts
      exact .congr (by simp [commentsOf, token_comments ht rfl]) rfl (hcarries hts)
    | declarator =>
      obtain ⟨t, ht, h⟩ := bind_eq_ok.1 h
      have ht := childIn_ok ht
      dsimp only at h
      by_cases hvalue : (childIn? .value children).isSome
      · rw [if_pos hvalue] at h
        obtain ⟨init, hinit, h⟩ := bind_eq_ok.1 h
        obtain ⟨ds, hds, h⟩ := bind_eq_ok.1 h
        cases h
        obtain ⟨e, he, rfl⟩ := map_ok hinit
        obtain ⟨hprints, hcarries⟩ := readDeclarators_survive rest hds
        obtain ⟨v, hv, hsurvives⟩ := readExpressionIn_survives .value children he
        refine ⟨fun L => ?_, fun hts => ?_⟩
        · obtain ⟨u, hu⟩ := hsurvives.prints L
          obtain ⟨us, hus⟩ := hprints L
          exact ⟨_, by rw [declaratorTexts, hu, ok_bind, hus]; rfl⟩
        · obtain ⟨hdeclarator, hts⟩ := Bool.and_eq_true_iff.1 hts
          obtain ⟨hparts, hcf⟩ := comments_of_faithful hdeclarator rfl (by simp)
          rw [readParts, childrenIn_cons ht, childrenIn_cons hv] at hparts
          have hfirst := (Carries.kept t).append (Carries.of_childIn hv hcf hsurvives.carries)
          exact .append (.congr hparts rfl hfirst) (hcarries hts)
      · rw [if_neg hvalue] at h
        obtain ⟨init, hinit, h⟩ := bind_eq_ok.1 h
        obtain ⟨ds, hds, h⟩ := bind_eq_ok.1 h
        cases h
        cases hinit
        obtain ⟨hprints, hcarries⟩ := readDeclarators_survive rest hds
        refine ⟨fun L => ?_, fun hts => ?_⟩
        · obtain ⟨us, hus⟩ := hprints L
          exact ⟨_, by rw [declaratorTexts, hus]; rfl⟩
        · obtain ⟨hdeclarator, hts⟩ := Bool.and_eq_true_iff.1 hts
          obtain ⟨hparts, hcf⟩ := comments_of_faithful hdeclarator rfl (by simp)
          rw [readParts, childrenIn_cons ht, childrenIn_none (Option.not_isSome_iff_eq_none.1 hvalue)] at hparts
          exact .append (.congr hparts rfl (.kept t)) (hcarries hts)
    | _ => cases h

theorem readExported_survives (role : Role) : ∀ (ts : List Concrete) {s : Shape}, readExported role ts = .ok s →
    ∃ t, childIn? role ts = some t ∧ Survives statementText statementWords [t] (.ofShape s)
  | [], s, h => by cases h
  | t :: rest, s, h => by
    unfold readExported at h
    rw [childIn?_cons]
    by_cases ht : t.role == some role
    · rw [if_pos ht] at h ⊢
      refine ⟨t, rfl, ?_⟩
      have hfunction (f : Function) (hkind : t.kind = .functionDeclaration ∨ t.kind = .functionExpression)
          (hf : readFunction t = .ok f) :
          Survives statementText statementWords [t] (.ofShape (.exportDefault (.ofShape (.function f)))) := by
        obtain ⟨hprints, hcarries⟩ := readFunction_survives t hkind hf
        refine ⟨rfl, fun L => ?_, fun htf => ?_⟩
        · obtain ⟨u, hu⟩ := hprints L
          exact ⟨_, by rw [Node.ofShape, Node.ofShape, statementText, expressionText, hu]; rfl⟩
        · refine .congr rfl ?_ (hcarries (Bool.and_eq_true_iff.1 htf).1)
          simp [Node.ofShape, statementWords, expressionWords, Node.shape]
      split at h
      · rename_i hkind
        obtain ⟨f, hf, h⟩ := bind_eq_ok.1 h
        cases h
        exact hfunction f (.inl hkind) hf
      · rename_i hkind
        obtain ⟨f, hf, h⟩ := bind_eq_ok.1 h
        cases h
        exact hfunction f (.inr hkind) hf
      · cases h
      · obtain ⟨e, he, h⟩ := bind_eq_ok.1 h
        cases h
        have hsurvives := readExpression_survives t he
        refine ⟨rfl, fun L => ?_, fun htf => .congr rfl ?_ (hsurvives.carries htf)⟩
        · obtain ⟨u, hu⟩ := hsurvives.prints L
          exact exported_prints hu
        · rw [Node.ofShape, statementWords]
          split <;> simp [remarks_append]
    · rw [if_neg ht] at h ⊢
      exact readExported_survives role rest h

theorem readFunction_survives : ∀ (t : Concrete) {f : Function}, t.kind = .functionDeclaration ∨ t.kind = .functionExpression →
    readFunction t = .ok f → Prints functionText f ∧ (t.isFaithful = true → Carries [t] (functionWords f))
  | .node kind role span children, f, hkind, h => by
    rw [readFunction] at h
    obtain ⟨hprints, hcarries⟩ := functionOf_survives h fun ns hns => readBodyIn_survives children hns
    refine ⟨hprints, fun ht => ?_⟩
    obtain rfl | rfl : kind = .functionDeclaration ∨ kind = .functionExpression := hkind
    · obtain ⟨hparts, hts⟩ := comments_of_faithful ht rfl (by simp)
      exact .congr hparts rfl (hcarries hts)
    · obtain ⟨hparts, hts⟩ := comments_of_faithful ht rfl (by simp)
      exact .congr hparts rfl (hcarries hts)

theorem readBodyIn_survives : ∀ (ts : List Concrete) {ns : List Node}, readBodyIn ts = .ok ns →
    ∃ t, childIn? .body ts = some t ∧ (∀ L previous, ∃ ls, blockLines L previous ns = .ok ls) ∧
      (areFaithful t.children = true → Carries t.children (blockWords ns))
  | [], ns, h => by cases h
  | .node kind role span children :: rest, ns, h => by
    rw [readBodyIn] at h
    rw [childIn?_cons, Concrete.role]
    by_cases ht : role == some .body
    · rw [if_pos ht] at h ⊢
      exact ⟨_, rfl, block_survives (readStatements_survive children) h⟩
    · rw [if_neg ht] at h ⊢
      exact readBodyIn_survives rest h

end

/-! ## Modules -/

def commentedModule : Text :=
  "// a\nx = 1; // b\n\nfunction f(y) \x7b\n    /* c */\n    g(y /* d */ + 1);\n\x7d\n"

end ApiRoutes.Script
