import ApiRoutes.Script.Query
import ApiRoutes.Proofs.Script.Survival
/-!
# Declarations that hide

A statement that is not read as a node of its own is kept as text, and no query finds it.  Of what a
merge looks for, a default export, a function and a return, that happens to exactly those that are
not open (`isKept_eq`): functions with comments among their parameters, generators, returns with
comments, default exports of anything but an open function or an expression.
-/
namespace ApiRoutes.Script

variable {t : Concrete} {ts : List Concrete}

namespace Concrete

/-- Is the tree one of a list of statements, neither a comment nor a sign? -/
def isItem (t : Concrete) : Bool := !t.isComment && t.isNamed

/-- The statements among the children of a block. -/
def items (ts : List Concrete) : List Concrete := ts.filter isItem

/-- Is the text of the statement kept as it is? -/
def isKept (t : Concrete) : Bool :=
  match readStatement t with
  | .ok ⟨_, .raw _ _⟩ => true
  | _ => false

def keptItems (ts : List Concrete) : List Concrete := (items ts).filter isKept

/-- Are there a body, and parameters without a comment among them? -/
def opensFunction (children : List Concrete) : Bool :=
  (childIn? .parameters children).any (fun t => !t.children.any isComment) && (childIn? .body children).isSome

/-- Is a default export one of a function that can be read, or of some other expression? -/
def opensExport (children : List Concrete) : Bool :=
  match childIn? .declaration children with
  | some t => t.kind == .functionDeclaration && opensFunction t.children
  | none => (childIn? .value children).any fun t => t.kind != .functionExpression || opensFunction t.children

def opensReturn (children : List Concrete) : Bool :=
  !children.any isComment && (children.filter isNamed).length ≤ 1

/-- Can the declaration be read? -/
def isOpen (t : Concrete) : Bool :=
  match t.kind with
  | .functionDeclaration => opensFunction t.children
  | .returnStatement => opensReturn t.children
  | .exportStatement => t.has (.token "default") && opensExport t.children
  | _ => false

end Concrete

/-- Is a statement of a source what is looked for, read or not? -/
def Query.findsTree (q : Query) (t : Concrete) : Bool :=
  match q with
  | .function name =>
    (t.kind == .functionDeclaration || (t.kind == .other && t.has (.token "function"))) && (childIn? .name t.children).map Concrete.text == name
  | .defaultExport => t.kind == .exportStatement && t.has (.token "default")
  | .returns => t.kind == .returnStatement
  | _ => false

open Concrete (isItem items isKept keptItems opensFunction opensExport opensReturn isOpen)

/-! ## Refusals -/

/-- A reading of a tree never leaves it to others: it keeps the text at the worst. -/
def Settles {α : Type} (r : Reading α) : Prop := r ≠ .error .outside

theorem orKeep_settles {r : Reading Shape} : Settles (orKeep t r) := by
  unfold orKeep Settles
  split
  · simp
  · simp
  · rename_i e he
    intro h
    cases h
    exact he rfl

theorem readExpression_settles : Settles (readExpression t) := by
  cases t
  unfold readExpression
  exact orKeep_settles

theorem readStatement_settles : Settles (readStatement t) := by
  cases t
  unfold readStatement
  exact orKeep_settles

theorem Settles.bind {α β : Type} {r : Reading α} {f : α → Reading β} (h : Settles r) (hf : ∀ a, Settles (f a)) :
    Settles (r >>= f) := by
  cases r with
  | error e =>
    intro he
    cases he
    exact h rfl
  | ok a => exact hf a

theorem Settles.pure {α : Type} (a : α) : Settles (Pure.pure a) := by
  intro h
  cases h

theorem Settles.mapM {α β : Type} {f : α → Reading β} : ∀ {as : List α}, (∀ a ∈ as, Settles (f a)) → Settles (as.mapM f)
  | [], _ => .pure _
  | a :: as, h => by
    rw [List.mapM_cons]
    exact (h a List.mem_cons_self).bind fun b =>
      (Settles.mapM fun a' ha => h a' (List.mem_cons_of_mem _ ha)).bind fun bs => .pure _

theorem sequence_settles {read : Concrete → Reading Node} (h : ∀ t, Settles (read t)) : Settles (sequence (siblings read ts)) := by
  refine Settles.mapM fun g hg => ?_
  cases hmain : g.main with
  | inl c => exact .pure _
  | inr r =>
    refine Settles.bind ?_ fun n => .pure _
    have hmem : .inr r ∈ (siblings read ts).map Sibling.content := by
      rw [← groups_flatten]
      exact List.mem_flatMap.2 ⟨g, hg, by simp [Group.flatten, hmain]⟩
    obtain ⟨s, hs, hr⟩ := List.mem_map.1 hmem
    obtain ⟨t, ht, hs⟩ := List.mem_flatMap.1 hs
    unfold siblingOf at hs
    split at hs
    · cases List.mem_singleton.1 hs
      cases hr
    · split at hs
      · cases List.mem_singleton.1 hs
        cases hr
        exact h t
      · cases hs

theorem readExpressions_settles : ∀ ts : List Concrete, Settles (readExpressions ts)
  | [] => .pure _
  | t :: rest => by
    rw [readExpressions]
    split
    · exact readExpression_settles.bind fun e => (readExpressions_settles rest).bind fun es => .pure _
    · exact readExpressions_settles rest

/-- The number of nodes read is that of the named trees. -/
theorem readExpressions_length {ts : List Concrete} : ∀ {ns : List Node}, readExpressions ts = .ok ns →
    ns.length = (ts.filter Concrete.isNamed).length := by
  induction ts with
  | nil =>
    intro ns h
    cases h
    rfl
  | cons t rest ih =>
    intro ns h
    rw [readExpressions] at h
    by_cases ht : t.isNamed
    · rw [if_pos ht] at h
      obtain ⟨e, -, h⟩ := bind_eq_ok.1 h
      obtain ⟨es, hes, h⟩ := bind_eq_ok.1 h
      cases h
      rw [List.filter_cons_of_pos ht, List.length_cons, List.length_cons, ih hes]
    · rw [if_neg ht] at h
      rw [List.filter_cons_of_neg ht, ih h]

/-! ## What hides -/

theorem readBodyIn_eq : ∀ ts : List Concrete, readBodyIn ts =
    match childIn? .body ts with
    | some t => sequence (readStatements t.children)
    | none => .error .outside
  | [] => rfl
  | .node kind role span children :: rest => by
    rw [readBodyIn, childIn?_cons, Concrete.role, readBodyIn_eq rest]
    split <;> rfl

theorem readBody_settles : Settles (sequence (readStatements ts)) := by
  rw [readStatements_eq]
  exact sequence_settles fun t => readStatement_settles

/-- The parameters of an open function can be read. -/
theorem parametersOf_ok (h : opensFunction ts = true) : ∃ params, parametersOf ts = .ok params := by
  simp only [opensFunction, Bool.and_eq_true, Option.any_eq_true] at h
  obtain ⟨⟨p, hp, hc⟩, -⟩ := h
  refine ⟨p.named.map Concrete.text, ?_⟩
  rw [Bool.not_eq_true'] at hc
  rw [parametersOf, childIn, hp]
  change (noComments p.children >>= fun _ => _) = _
  rw [noComments, hc]
  rfl

theorem functionOf_settles (h : opensFunction ts = true) : Settles (functionOf ts (readBodyIn ts)) := by
  obtain ⟨params, hparams⟩ := parametersOf_ok h
  obtain ⟨b, hb⟩ := Option.isSome_iff_exists.1 (Bool.and_eq_true_iff.1 h).2
  unfold functionOf
  rw [hparams, readBodyIn_eq, hb]
  exact readBody_settles.bind fun ns => .pure _

theorem functionOf_refused (h : opensFunction ts = false) : functionOf ts (readBodyIn ts) = .error .outside := by
  unfold functionOf parametersOf childIn
  rw [readBodyIn_eq]
  cases hp : childIn? .parameters ts with
  | none => rfl
  | some p =>
    cases hc : p.children.any Concrete.isComment with
    | true => simp [noComments, hc, bind, Except.bind]
    | false =>
      cases hb : childIn? .body ts with
      | none => simp [noComments, hc, bind, Except.bind, pure, Except.pure]
      | some b => simp [opensFunction, hp, hc, hb] at h

theorem readFunction_eq (t : Concrete) : readFunction t = functionOf t.children (readBodyIn t.children) := by
  cases t
  rfl

def readDeclared (t : Concrete) : Reading Shape :=
  if t.kind = .functionDeclaration then return .exportDefault (.ofShape (.function (← readFunction t))) else .error .outside

def readValue (t : Concrete) : Reading Shape :=
  if t.kind = .functionExpression then return .exportDefault (.ofShape (.function (← readFunction t)))
  else return .exportDefault (← readExpression t)

theorem readExported_declaration : ∀ ts : List Concrete, readExported .declaration ts =
    ((childIn? .declaration ts).map readDeclared).getD (.error .outside)
  | [] => rfl
  | t :: rest => by
    unfold readExported
    rw [childIn?_cons, readExported_declaration rest]
    by_cases ht : t.role == some .declaration
    · rw [if_pos ht, if_pos ht, Option.map_some, Option.getD_some, readDeclared]
      split <;> simp_all
    · rw [if_neg ht, if_neg ht]

theorem readExported_value : ∀ ts : List Concrete, readExported .value ts =
    ((childIn? .value ts).map readValue).getD (.error .outside)
  | [] => rfl
  | t :: rest => by
    unfold readExported
    rw [childIn?_cons, readExported_value rest]
    by_cases ht : t.role == some .value
    · rw [if_pos ht, if_pos ht, Option.map_some, Option.getD_some, readValue]
      split <;> simp_all
    · rw [if_neg ht, if_neg ht]

/-- The reading of a default export. -/
def readExport (ts : List Concrete) : Reading Shape :=
  if (childIn? .declaration ts).isSome then readExported .declaration ts else readExported .value ts

theorem readExport_eq (ts : List Concrete) : readExport ts =
    match childIn? .declaration ts with
    | some t => readDeclared t
    | none => ((childIn? .value ts).map readValue).getD (.error .outside) := by
  rw [readExport, readExported_declaration, readExported_value]
  cases childIn? .declaration ts <;> rfl

theorem readExport_settles (h : opensExport ts = true) : Settles (readExport ts) := by
  unfold opensExport at h
  rw [readExport_eq]
  cases hd : childIn? .declaration ts with
  | some t =>
    rw [hd] at h
    obtain ⟨hkind, hopen⟩ := Bool.and_eq_true_iff.1 h
    dsimp only
    rw [readDeclared, if_pos (eq_of_beq hkind), readFunction_eq]
    exact (functionOf_settles hopen).bind fun f => .pure _
  | none =>
    rw [hd] at h
    obtain ⟨t, hv, hopen⟩ := (Option.any_eq_true _ _).1 h
    rw [hv]
    dsimp only
    rw [Option.map_some, Option.getD_some, readValue]
    by_cases hkind : t.kind = .functionExpression
    · simp only [hkind, bne_self_eq_false, Bool.false_or] at hopen
      rw [if_pos hkind, readFunction_eq]
      exact (functionOf_settles hopen).bind fun f => .pure _
    · rw [if_neg hkind]
      exact readExpression_settles.bind fun e => .pure _

theorem readExport_refused (h : opensExport ts = false) : readExport ts = .error .outside := by
  unfold opensExport at h
  rw [readExport_eq]
  cases hd : childIn? .declaration ts with
  | some t =>
    rw [hd] at h
    dsimp only at h ⊢
    rw [readDeclared]
    by_cases hkind : t.kind = .functionDeclaration
    · simp only [hkind, beq_self_eq_true, Bool.true_and] at h
      rw [if_pos hkind, readFunction_eq, functionOf_refused h]
      rfl
    · rw [if_neg hkind]
  | none =>
    rw [hd] at h
    dsimp only at h ⊢
    cases hv : childIn? .value ts with
    | none => rfl
    | some t =>
      rw [hv] at h
      simp only [Option.any_some, Bool.or_eq_false_iff, bne_eq_false_iff_eq] at h
      rw [Option.map_some, Option.getD_some, readValue, if_pos h.1, readFunction_eq, functionOf_refused h.2]
      rfl

/-- The reading of a return. -/
def readReturn (ts : List Concrete) : Reading Shape := do
  noComments ts
  match ← readExpressions ts with
  | [] => return .returns none
  | [e] => return .returns (some e)
  | _ => .error .outside

theorem readReturn_settles (h : opensReturn ts = true) : Settles (readReturn ts) := by
  simp only [opensReturn, Bool.and_eq_true, Bool.not_eq_true', decide_eq_true_eq] at h
  obtain ⟨hcomments, hlength⟩ := h
  have hsettles := readExpressions_settles ts
  unfold readReturn
  rw [noComments, hcomments]
  cases hes : readExpressions ts with
  | error e =>
    rw [hes] at hsettles
    intro hrefused
    cases hrefused
    exact hsettles rfl
  | ok es =>
    rw [← readExpressions_length hes] at hlength
    obtain _ | ⟨e, _ | ⟨e', es⟩⟩ := es
    · exact .pure _
    · exact .pure _
    · simp at hlength

theorem readReturn_opens {s : Shape} (hs : readReturn ts = .ok s) : opensReturn ts = true := by
  unfold readReturn noComments at hs
  obtain ⟨_, hcomments, hs⟩ := bind_eq_ok.1 hs
  obtain ⟨es, hes, hs⟩ := bind_eq_ok.1 hs
  have hnone : ts.any Concrete.isComment = false := by
    cases hc : ts.any Concrete.isComment with
    | false => rfl
    | true =>
      rw [hc] at hcomments
      cases hcomments
  rw [opensReturn, hnone, ← readExpressions_length hes]
  obtain _ | ⟨e, _ | ⟨e', es⟩⟩ := es
  · rfl
  · rfl
  · cases hs

/-- What a statement of a source is read as. -/
inductive ReadStatement (t : Concrete) : Node → Prop
  | kept (h : t.isOpen = false) : ReadStatement t (keep t)
  | function {f : Function} (hkind : t.kind = .functionDeclaration) (h : t.isOpen = true)
      (hf : readFunction t = .ok f) : ReadStatement t (.ofShape (.function f))
  | exported {d : Node} (hkind : t.kind = .exportStatement) (hdefault : t.has (.token "default") = true)
      (h : t.isOpen = true) (hd : readExport t.children = .ok (.exportDefault d)) :
      ReadStatement t (.ofShape (.exportDefault d))
  | returned {e : Option Node} (hkind : t.kind = .returnStatement) (h : t.isOpen = true) :
      ReadStatement t (.ofShape (.returns e))
  | declaration {kind : Text} {ds : List Declarator} (hkind : t.kind = .declaration) :
      ReadStatement t (.ofShape (.variables kind ds))
  | expression {e : Node} (hkind : t.kind = .expressionStatement) : ReadStatement t (.ofShape (.expression e))
  | imports {x : Text} {source : Node} (hkind : t.kind = .importStatement) :
      ReadStatement t (.ofShape (.imports x source))

theorem readExport_ok {s : Shape} (h : readExport ts = .ok s) : ∃ d, s = .exportDefault d := by
  rw [readExport_eq] at h
  have hvalue {t : Concrete} (h : readValue t = .ok s) : ∃ d, s = .exportDefault d := by
    unfold readValue at h
    split at h
    · obtain ⟨f, -, h⟩ := bind_eq_ok.1 h
      cases h
      exact ⟨_, rfl⟩
    · obtain ⟨e, -, h⟩ := bind_eq_ok.1 h
      cases h
      exact ⟨_, rfl⟩
  cases hd : childIn? .declaration ts with
  | some t =>
    rw [hd] at h
    dsimp only at h
    unfold readDeclared at h
    split at h
    · obtain ⟨f, -, h⟩ := bind_eq_ok.1 h
      cases h
      exact ⟨_, rfl⟩
    · cases h
  | none =>
    rw [hd] at h
    dsimp only at h
    cases hv : childIn? .value ts with
    | none =>
      rw [hv] at h
      cases h
    | some t =>
      rw [hv] at h
      exact hvalue h

theorem readReturn_ok {s : Shape} (h : readReturn ts = .ok s) : ∃ e, s = .returns e := by
  unfold readReturn at h
  obtain ⟨-, -, h⟩ := bind_eq_ok.1 h
  obtain ⟨es, -, h⟩ := bind_eq_ok.1 h
  obtain _ | ⟨e, _ | ⟨e', es⟩⟩ := es <;> cases h
  · exact ⟨_, rfl⟩
  · exact ⟨_, rfl⟩

theorem importOf_ok {s : Shape} (h : importOf ts = .ok s) : ∃ x source, s = .imports x source := by
  unfold importOf at h
  obtain ⟨-, -, h⟩ := bind_eq_ok.1 h
  obtain ⟨source, -, h⟩ := bind_eq_ok.1 h
  split at h
  · obtain ⟨-, -, h⟩ := bind_eq_ok.1 h
    split at h
    · split at h
      · cases h
      · obtain ⟨s, -, h⟩ := bind_eq_ok.1 h
        cases h
        exact ⟨_, _, rfl⟩
    · cases h
  · cases h

theorem orKeep_kept {r : Reading Shape} {n : Node} (h : orKeep t r = .ok n) :
    n = keep t ∧ r = .error .outside ∨ ∃ s, r = .ok s ∧ n = .ofShape s := by
  obtain (_ | _) | s := r <;> cases h
  · exact .inl ⟨rfl, rfl⟩
  · exact .inr ⟨s, rfl, rfl⟩

/-- **A statement is read as what it is, or kept.** -/
theorem readStatement_ok {n : Node} (h : readStatement t = .ok n) : ReadStatement t n := by
  obtain ⟨kind, role, span, children⟩ := t
  unfold readStatement at h
  cases kind with
  | functionDeclaration =>
    cases ho : opensFunction children with
    | false =>
      have : orKeep (.node .functionDeclaration role span children)
          (Shape.function <$> functionOf children (readBodyIn children)) = .ok n := h
      rw [functionOf_refused ho] at this
      cases this
      exact .kept ho
    | true =>
      obtain ⟨-, hr⟩ | ⟨s, hs, rfl⟩ := orKeep_kept h
      · exact absurd hr ((functionOf_settles ho).bind fun f => .pure _)
      · obtain ⟨f, hf, hs⟩ := bind_eq_ok.1 hs
        cases hs
        exact .function rfl ho hf
  | declaration =>
    obtain ⟨rfl, -⟩ | ⟨s, hs, rfl⟩ := orKeep_kept h
    · exact .kept rfl
    · obtain ⟨-, -, hs⟩ := bind_eq_ok.1 hs
      obtain ⟨ds, -, hs⟩ := bind_eq_ok.1 hs
      split at hs <;> cases hs
      exact .declaration rfl
  | expressionStatement =>
    obtain ⟨rfl, -⟩ | ⟨s, hs, rfl⟩ := orKeep_kept h
    · exact .kept rfl
    · obtain ⟨-, -, hs⟩ := bind_eq_ok.1 hs
      obtain ⟨es, -, hs⟩ := bind_eq_ok.1 hs
      split at hs <;> cases hs
      exact .expression rfl
  | returnStatement =>
    have h : orKeep (.node .returnStatement role span children) (readReturn children) = .ok n := h
    obtain ⟨rfl, hr⟩ | ⟨s, hs, rfl⟩ := orKeep_kept h
    · refine .kept ?_
      cases ho : opensReturn children with
      | false => exact ho
      | true => exact absurd hr (readReturn_settles ho)
    · obtain ⟨e, rfl⟩ := readReturn_ok hs
      exact .returned rfl (readReturn_opens hs)
  | importStatement =>
    obtain ⟨rfl, -⟩ | ⟨s, hs, rfl⟩ := orKeep_kept h
    · exact .kept rfl
    · obtain ⟨x, source, rfl⟩ := importOf_ok hs
      exact .imports rfl
  | exportStatement =>
    by_cases hdefault : children.any (·.kind == .token "default")
    · have h : orKeep (.node .exportStatement role span children) (readExport children) = .ok n := by
        dsimp only at h
        rwa [if_pos hdefault] at h
      cases ho : opensExport children with
      | false =>
        rw [readExport_refused ho] at h
        cases h
        refine .kept ?_
        simp [isOpen, Concrete.kind, Concrete.children, ho]
      | true =>
        obtain ⟨-, hr⟩ | ⟨s, hs, rfl⟩ := orKeep_kept h
        · exact absurd hr (readExport_settles ho)
        · obtain ⟨d, rfl⟩ := readExport_ok hs
          exact .exported rfl hdefault (Bool.and_eq_true_iff.2 ⟨hdefault, ho⟩) hs
    · dsimp only at h
      rw [if_neg hdefault] at h
      cases h
      refine .kept (Bool.and_eq_false_iff.2 (.inl ?_))
      simpa [Concrete.has, Concrete.children] using hdefault
  | _ =>
    cases h
    exact .kept rfl

/-- Is it a kind of statement that is counted? -/
def Query.isDeclaration : Query → Bool
  | .function _ | .defaultExport | .returns => true
  | _ => false

variable {q : Query} {n : Node}

/-- **A query finds what is open**, and no other declaration. -/
theorem ReadStatement.finds (h : ReadStatement t n) (hq : q.isDeclaration = true) :
    q.finds n = (q.findsTree t && t.isOpen) := by
  cases h with
  | kept h => cases q <;> first | exact absurd hq Bool.false_ne_true | simp [Query.finds, keep, Node.ofShape, Node.shape, h]
  | function hkind h hf =>
    rw [readFunction_eq] at hf
    unfold functionOf at hf
    obtain ⟨params, -, hf⟩ := bind_eq_ok.1 hf
    obtain ⟨body, -, hf⟩ := bind_eq_ok.1 hf
    cases hf
    cases q <;> first | exact absurd hq Bool.false_ne_true | simp [Query.finds, Query.findsTree, Node.ofShape, Node.shape, h, hkind]
  | exported hkind hdefault h hd =>
    cases q <;> first | exact absurd hq Bool.false_ne_true | simp [Query.finds, Query.findsTree, Node.ofShape, Node.shape, h, hkind, hdefault]
  | returned hkind h => cases q <;> first | exact absurd hq Bool.false_ne_true | simp [Query.finds, Query.findsTree, Node.ofShape, Node.shape, h, hkind]
  | declaration hkind => cases q <;> first | exact absurd hq Bool.false_ne_true | simp [Query.finds, Query.findsTree, Node.ofShape, Node.shape, hkind]
  | expression hkind => cases q <;> first | exact absurd hq Bool.false_ne_true | simp [Query.finds, Query.findsTree, Node.ofShape, Node.shape, hkind]
  | imports hkind => cases q <;> first | exact absurd hq Bool.false_ne_true | simp [Query.finds, Query.findsTree, Node.ofShape, Node.shape, hkind]

/-- **What is not open is kept**, if it is a declaration. -/
theorem isKept_eq (h : readStatement t = .ok n) (hq : q.findsTree t = true) : t.isKept = !t.isOpen := by
  have hread := readStatement_ok h
  unfold isKept
  rw [h]
  cases hread with
  | kept ho => simp [keep, Node.ofShape, ho]
  | function hkind ho hf => simp [Node.ofShape, ho]
  | exported hkind hdefault ho hd => simp [Node.ofShape, ho]
  | returned hkind ho => simp [Node.ofShape, ho]
  | declaration hkind => cases q <;> simp [Query.findsTree, hkind] at hq
  | expression hkind => cases q <;> simp [Query.findsTree, hkind] at hq
  | imports hkind => cases q <;> simp [Query.findsTree, hkind] at hq

/-! ## Lists of statements -/

/-- What a node is that is no comment. -/
def Node.content? (n : Node) : Option Shape :=
  match n.shape with
  | .comment _ => none
  | s => some s

/-- The text that is kept in the place of a statement. -/
def Shape.kept? : Shape → Option Text
  | .raw text _ => some text
  | _ => none

/-- The texts that are kept in the place of statements. -/
def keptTexts (ns : List Node) : List Text := ns.filterMap fun n => n.shape.kept?

/-- What one of the siblings is, unless a comment. -/
def contentShape? : PlacedComment ⊕ Reading Node → Option Shape
  | .inr (.ok n) => n.content?
  | _ => none

theorem sequence_contents {ss : List (Sibling (Reading Node))} {ns : List Node} (h : sequence ss = .ok ns) :
    ns.filterMap Node.content? = (ss.map Sibling.content).filterMap contentShape? := by
  rw [← groups_flatten]
  have hall := sequence_ok h
  generalize groups ss = gs at hall
  clear h
  have hgroup : ∀ g : Group (Reading Node), g.flatten.filterMap contentShape? = (contentShape? g.main).toList := fun g => by
    have hcomments : ∀ cs : List PlacedComment, (cs.map Sum.inl).filterMap contentShape? = [] := fun cs => by
      simp [contentShape?]
    rw [Group.flatten, List.filterMap_append, hcomments, List.nil_append, List.filterMap_cons, hcomments]
    cases contentShape? g.main <;> rfl
  induction hall with
  | nil => rfl
  | @cons g n gs ns hg _ ih =>
    rw [List.flatMap_cons, List.filterMap_append, ← ih, hgroup, List.filterMap_cons]
    have hmain : contentShape? g.main = n.content? := by
      obtain ⟨node, rfl, hmain | ⟨c, hmain, rfl⟩⟩ := hg
      · rw [hmain, contentShape?, Node.content?, Node.content?, Node.shape_withLayout]
      · rw [hmain]
        rfl
    rw [hmain]
    cases n.content? <;> rfl

theorem countP_contents (hq : q.isDeclaration = true) (ns : List Node) :
    ns.countP q.finds = (ns.filterMap Node.content?).countP fun s => q.finds (.ofShape s) := by
  induction ns with
  | nil => rfl
  | cons n ns ih =>
    obtain ⟨l, s⟩ := n
    rw [List.countP_cons, ih, List.filterMap_cons]
    cases s with
    | comment c => cases q <;> first | exact absurd hq Bool.false_ne_true | rfl
    | _ => rw [Node.content?, Node.shape, List.countP_cons]; rfl

theorem keptTexts_contents (ns : List Node) : keptTexts ns = (ns.filterMap Node.content?).filterMap Shape.kept? := by
  unfold keptTexts
  rw [List.filterMap_filterMap]
  congr 1
  funext n
  obtain ⟨l, s⟩ := n
  cases s <;> rfl

section

variable {ns : List Node}

theorem items_read (h : sequence (readStatements ts) = .ok ns) : ∀ t ∈ items ts, ∃ n, ReadStatement t n ∧ readStatement t = .ok n := by
  rw [readStatements_eq] at h
  intro t ht
  obtain ⟨ht, hitem⟩ := List.mem_filter.1 ht
  obtain ⟨hcomment, hnamed⟩ := Bool.and_eq_true_iff.1 hitem
  have hmem : .inr (readStatement t) ∈ (siblings readStatement ts).map Sibling.content := by
    refine List.mem_map.2 ⟨.item t.firstRow t.lastRow (readStatement t), List.mem_flatMap.2 ⟨t, ht, ?_⟩, rfl⟩
    rw [siblingOf, if_neg (by simpa using hcomment), if_pos hnamed]
    exact List.mem_singleton_self _
  obtain ⟨n, hn⟩ := sequence_readable h hmem
  exact ⟨n, readStatement_ok hn, hn⟩

/-- What a statement of a source is read as. -/
def readShape? (t : Concrete) : Option Shape := (readStatement t).toOption.bind Node.content?

theorem contents_statements (h : sequence (readStatements ts) = .ok ns) :
    ns.filterMap Node.content? = (items ts).filterMap readShape? := by
  rw [readStatements_eq] at h
  rw [sequence_contents h]
  clear h
  induction ts with
  | nil => rfl
  | cons t ts ih =>
    have hcons : siblings readStatement (t :: ts) = siblingOf t (readStatement t) ++ siblings readStatement ts := rfl
    rw [hcons, List.map_append, List.filterMap_append, ih]
    unfold siblingOf items isItem
    by_cases hcomment : t.isComment
    · simp [hcomment, Sibling.content, contentShape?]
    · by_cases hnamed : t.isNamed
      · have hshape : contentShape? (.inr (readStatement t)) = readShape? t := by
          unfold readShape? contentShape?
          cases readStatement t <;> rfl
        simp [hcomment, hnamed, Sibling.content, List.filterMap_cons, hshape]
        cases readShape? t <;> rfl
      · simp [hcomment, hnamed]

theorem ReadStatement.content? (h : ReadStatement t n) : n.content? = some n.shape := by
  cases h <;> rfl

theorem Query.finds_ofShape (q : Query) (n : Node) : q.finds (.ofShape n.shape) = q.finds n := by
  obtain ⟨l, s⟩ := n
  cases q <;> rfl

/-- **Statements are found as often as open declarations stand in the source.** -/
theorem countP_statements (h : sequence (readStatements ts) = .ok ns) (hq : q.isDeclaration = true) :
    ns.countP q.finds = (items ts).countP fun t => q.findsTree t && t.isOpen := by
  have hread := items_read h
  rw [countP_contents hq, contents_statements h]
  generalize items ts = us at hread ⊢
  clear h
  induction us with
  | nil => rfl
  | cons t us ih =>
    obtain ⟨n, hn, hr⟩ := hread t List.mem_cons_self
    have hshape : readShape? t = some n.shape := by
      rw [readShape?, hr]
      exact hn.content?
    rw [List.filterMap_cons, hshape, List.countP_cons, List.countP_cons, ih fun u hu => hread u (List.mem_cons_of_mem _ hu),
      q.finds_ofShape, hn.finds hq]

theorem find?_contents (hq : q.isDeclaration = true) (ns : List Node) :
    (ns.find? q.finds).map Node.shape = (ns.filterMap Node.content?).find? fun s => q.finds (.ofShape s) := by
  induction ns with
  | nil => rfl
  | cons n ns ih =>
    have hcontent : q.finds n = true → n.content? = some n.shape := fun hn => by
      obtain ⟨l, s⟩ := n
      cases s <;> first | rfl | (cases q <;> first | exact absurd hq Bool.false_ne_true | cases hn)
    by_cases hn : q.finds n
    · rw [List.find?_cons_of_pos hn, List.filterMap_cons, hcontent hn, List.find?_cons_of_pos (by rwa [q.finds_ofShape])]
      rfl
    · rw [List.find?_cons_of_neg hn, ih, List.filterMap_cons]
      cases hc : n.content? with
      | none => rfl
      | some s =>
        have hs : s = n.shape := by
          obtain ⟨l, s'⟩ := n
          cases s' <;> cases hc <;> rfl
        rw [List.find?_cons_of_neg (by rwa [hs, q.finds_ofShape])]

/-- **The first statement found is the first open declaration of the source.** -/
theorem find?_statements (h : sequence (readStatements ts) = .ok ns) (hq : q.isDeclaration = true) :
    (ns.find? q.finds).map Node.shape = ((items ts).find? fun t => q.findsTree t && t.isOpen).bind readShape? := by
  have hread := items_read h
  rw [find?_contents hq, contents_statements h]
  generalize items ts = us at hread ⊢
  clear h
  induction us with
  | nil => rfl
  | cons t us ih =>
    obtain ⟨n, hn, hr⟩ := hread t List.mem_cons_self
    have hshape : readShape? t = some n.shape := by
      rw [readShape?, hr]
      exact hn.content?
    have hfinds := hn.finds hq
    rw [← q.finds_ofShape] at hfinds
    rw [List.filterMap_cons, hshape, List.find?_cons, List.find?_cons, ih fun u hu => hread u (List.mem_cons_of_mem _ hu),
      hfinds]
    cases q.findsTree t && t.isOpen with
    | true => exact hshape.symm
    | false => rfl

/-- **Statements that are kept have the texts of their sources.** -/
theorem keptTexts_statements (h : sequence (readStatements ts) = .ok ns) :
    keptTexts ns = (keptItems ts).map Concrete.text := by
  have hread := items_read h
  rw [keptTexts_contents, contents_statements h, keptItems]
  generalize items ts = us at hread ⊢
  clear h
  induction us with
  | nil => rfl
  | cons t us ih =>
    obtain ⟨n, hn, hr⟩ := hread t List.mem_cons_self
    have hshape : readShape? t = some n.shape := by
      rw [readShape?, hr]
      exact hn.content?
    have hkept : t.isKept = n.shape.kept?.isSome := by
      rw [isKept, hr]
      cases hn <;> rfl
    have htext : n.shape.kept? = if t.isKept then some t.text else none := by
      rw [hkept]
      cases hn <;> rfl
    rw [List.filterMap_cons, hshape, List.filterMap_cons, ih fun u hu => hread u (List.mem_cons_of_mem _ hu), htext]
    cases hk : t.isKept with
    | true => rw [List.filter_cons_of_pos hk]; rfl
    | false => rw [List.filter_cons_of_neg (by simp [hk])]; rfl

/-- **What hides is what is not open.** -/
theorem countP_keptItems (h : sequence (readStatements ts) = .ok ns) :
    (keptItems ts).countP q.findsTree = (items ts).countP fun t => q.findsTree t && !t.isOpen := by
  have hread := items_read h
  rw [keptItems, List.countP_filter]
  refine List.countP_congr fun t ht => ?_
  obtain ⟨n, -, hr⟩ := hread t ht
  cases hq : q.findsTree t with
  | false => simp
  | true => simp [isKept_eq hr hq]

end

end ApiRoutes.Script
