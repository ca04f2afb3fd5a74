import ApiRoutes.Script.Query
import ApiRoutes.Proofs.Script.Functions
/-!
# Plain trees stay plain

What a plain tree is read back as is plain too (`statements_again`), so a module can be written and read any number
of times.  The induction is on the tree that is read: an access is read as the expression that it is written as, which
is no part of it (`access_again`).
-/
namespace ApiRoutes.Script

variable {n n' : Node} {l m : Layout} {s s' : Shape}

/-! ## Layouts -/

theorem Node.ReadsAs.isPlain_layout (h : n.ReadsAs n') : n'.layout.isPlain = n.layout.isPlain := by
  cases h with
  | mk hc ht hs => simp only [Layout.isPlain, Node.layout, hc, ht]

theorem Node.ReadsAs.isBare_eq (h : n.ReadsAs n') : n'.isBare = n.isBare := by
  cases h with
  | mk hc ht hs => simp only [Node.isBare, Layout.isBare, Node.layout, hc, ht]

theorem Node.ReadsAs.trailing_eq (h : n.ReadsAs n') : n'.layout.trailing = n.layout.trailing := by
  cases h with
  | mk hc ht hs => exact ht

/-! ## Scalars -/

theorem isPlainLiteral_again {v : Value} {raw : Option Text} {t : Text} (hv : isNumber v = false)
    (h : isPlainLiteral v raw = true) (ht : literalText v raw = .ok t) : isPlainLiteral v (some t) = true := by
  cases raw with
  | some s =>
    cases ht
    exact h
  | none =>
    cases v with
    | null =>
      cases ht
      rfl
    | bool b =>
      cases ht
      cases b <;> rfl
    | text x =>
      cases ht
      obtain ⟨cs, hcs⟩ := isWritable_iff.1 h
      rw [isPlainLiteral, unquote_quote, hcs, Text.toChars?_ofChars, Option.any_some, stringLength?_quote hcs]
      simp [Except.toOption]
    | int => cases hv
    | float => cases hv
    | _ => cases h

theorem number_again {t : Text} (h : NumberRead t s) (m : Layout) : plainExpression ⟨m, s⟩ = true := by
  cases h with
  | @literal cs v h hv =>
    have hspelling : isNumberSpelling (Text.ofChars cs) = true := by
      rw [isNumberSpelling, Text.toChars?_ofChars, Option.any_some, hv]
      exact Bool.or_true _
    have hplain : (((some (Text.ofChars cs)).all fun t => t.toChars?.any isNumeral) &&
        (literalText v (some (Text.ofChars cs))).toOption.any isNumberSpelling) = true := by
      rw [Option.all_some, Text.toChars?_ofChars, Option.any_some, h]
      exact hspelling
    unfold numberValue? at hv
    dsimp only at hv
    split at hv
    · cases hv
      exact hplain
    · obtain ⟨x, -, rfl⟩ := Option.map_eq_some_iff.1 hv
      exact hplain
  | raw i h => exact h
  | identifier h => exact h

theorem NumberRead.goesBy {t : Text} (h : NumberRead t s) (k : Text) : (Node.mk m s).goesBy k = true := by
  cases h <;> rfl

/-! ## Expressions -/

/-- A plain expression that is as good wherever the first one stands. -/
structure PlainAs (n n' : Node) : Prop where
  plain : plainExpression n' = true
  operand : n.isOperand = true → n'.isOperand = true
  target : n.isTarget = true → n'.isTarget = true
  assignment : n.isAssignment = true → n'.isAssignment = true
  quoted : n.isQuoted = true → n'.isQuoted = true
  goesBy : ∀ k, n'.goesBy k = true
  leading : n.isOperand = true ∨ n.isAssignment = true → leadingName n' = leadingName n

theorem isOperand_of_target (h : n.isTarget = true) : n.isOperand = true := by
  obtain ⟨l, s⟩ := n
  cases s <;> first | rfl | cases h

theorem identifier_again {x : Text} (h : isPlainName x = true) : PlainAs ⟨l, .identifier x⟩ ⟨m, .identifier x⟩ :=
  ⟨h, id, id, id, id, fun _ => rfl, fun _ => rfl⟩

theorem literal_again {v : Value} {raw : Option Text} {t : Text} (hv : isNumber v = false)
    (h : plainExpression ⟨l, .literal v raw⟩ = true) (ht : literalText v raw = .ok t) :
    PlainAs ⟨l, .literal v raw⟩ ⟨m, .literal v (some t)⟩ where
  plain := isPlainLiteral_again hv h ht
  operand := by cases v <;> exact id
  target := id
  assignment := id
  quoted := by cases v <;> exact id
  goesBy _ := rfl
  leading _ := rfl

theorem member_again {o o' : Node} {p : Text} {computed : Bool} (h : plainExpression ⟨l, .member o p computed⟩ = true)
    (hr : o.ReadsAs o') (ho : PlainAs o o') : PlainAs ⟨l, .member o p computed⟩ ⟨m, .member o' p computed⟩ := by
  rw [plainExpression] at h
  simp only [Bool.and_eq_true] at h
  obtain ⟨⟨⟨hoperand, hbare⟩, -⟩, hp⟩ := h
  refine ⟨?_, id, id, id, id, fun _ => rfl, fun _ => ho.leading (.inl hoperand)⟩
  rw [plainExpression, ho.operand hoperand, hr.isBare_eq, hbare, ho.plain, hp]
  rfl

theorem call_again {f f' : Node} {as as' : List Node} (h : plainExpression ⟨l, .call f as⟩ = true) (hr : f.ReadsAs f')
    (hf : PlainAs f f') (has : plainArguments as' = true) : PlainAs ⟨l, .call f as⟩ ⟨m, .call f' as'⟩ := by
  rw [plainExpression] at h
  simp only [Bool.and_eq_true] at h
  obtain ⟨⟨⟨hoperand, hbare⟩, -⟩, -⟩ := h
  refine ⟨?_, id, id, id, id, fun _ => rfl, fun _ => hf.leading (.inl hoperand)⟩
  rw [plainExpression, hf.operand hoperand, hr.isBare_eq, hbare, hf.plain, has]
  rfl

theorem requestMember_again {request w : Text} (hrequest : isPlainName request = true)
    (hplain : plainExpression ⟨l, .member (.ofShape (.identifier request)) w false⟩ = true)
    (h : Shape.ReadsAs (.member (.ofShape (.identifier request)) w false) s') :
    PlainAs ⟨l, .member (.ofShape (.identifier request)) w false⟩ ⟨m, s'⟩ := by
  cases h with
  | member ho =>
    refine member_again hplain ho ?_
    cases ho with
    | mk _ _ ho =>
      cases ho
      exact identifier_again hrequest

/-- An access is read as a plain expression that stands wherever it can. -/
theorem access_again {a : Access} (ha : a.isPlain = true) (h : Shape.ReadsAs (.access a) s') : PlainAs ⟨l, .access a⟩ ⟨m, s'⟩ := by
  cases h with
  | @access _ k s _ he h =>
    obtain ⟨hplain, hoperand, -⟩ := access_plain ha he
    have hrequest : isPlainName a.request = true := by
      rw [Access.isPlain, Bool.and_eq_true, Bool.and_eq_true] at ha
      exact ha.1.1
    suffices hs : PlainAs ⟨k, s⟩ ⟨m, s'⟩ ∧ leadingName ⟨k, s⟩ = some a.request by
      obtain ⟨hs, hleading⟩ := hs
      refine ⟨hs.plain, fun _ => hs.operand hoperand, ?_, ?_, ?_, hs.goesBy, fun _ => (hs.leading (.inl hoperand)).trans hleading⟩
      · intro h; cases h
      · intro h; cases h
      · intro h; cases h
    have hobject {o o' : Node} {w : Text} (ho : o = .ofShape (.member (.ofShape (.identifier a.request)) w false))
        (hplain : plainExpression o = true) (h : o.ReadsAs o') : PlainAs o o' := by
      subst ho
      cases h with
      | mk _ _ h => exact requestMember_again hrequest hplain h
    obtain ⟨_, -, he⟩ | ⟨-, he⟩ | ⟨-, he⟩ := Access.expression?_cases he
    · cases he
      refine ⟨?_, rfl⟩
      cases h with
      | member ho =>
        refine member_again hplain ho (hobject rfl ?_ ho)
        rw [Node.ofShape, plainExpression] at hplain
        simp only [Bool.and_eq_true] at hplain
        exact hplain.1.2
    · cases he
      refine ⟨?_, rfl⟩
      have hparts := hplain
      rw [Node.ofShape, plainExpression] at hparts
      simp only [Bool.and_eq_true] at hparts
      cases h with
      | call hf has =>
        refine call_again hplain hf (hobject rfl hparts.1.2 hf) ?_
        cases has with
        | cons hn has =>
          cases has
          have hname := hparts.2
          rw [plainArguments] at hname ⊢
          simp only [Bool.and_eq_true] at hname
          rw [hn.isBare_eq, hname.1.1]
          cases hn with
          | mk _ _ hs =>
            cases hs with
            | literal hv ht =>
              rw [(literal_again hv hname.1.2 ht).plain]
              rfl
            | number hv => cases hv
    · cases he
      exact ⟨requestMember_again hrequest hplain h, rfl⟩

mutual

theorem expression_again : ∀ {n n' : Node}, plainExpression n = true → n.ReadsAs n' → PlainAs n n'
  | ⟨l, .identifier x⟩, n', h, hr => by
    cases hr with
    | mk _ _ hs =>
      cases hs
      exact identifier_again h
  | ⟨l, .literal v raw⟩, n', h, hr => by
    cases hr with
    | mk _ _ hs =>
      cases hs with
      | literal hv ht => exact literal_again hv h ht
      | number hv ht hs =>
        cases v with
        | int => exact ⟨number_again hs _, nofun, nofun, nofun, nofun, hs.goesBy, by rintro (h | h) <;> cases h⟩
        | float => exact ⟨number_again hs _, nofun, nofun, nofun, nofun, hs.goesBy, by rintro (h | h) <;> cases h⟩
        | _ => cases hv
  | ⟨l, .raw t i⟩, n', h, hr => by
    cases hr with
    | mk _ _ hs =>
      cases hs
      exact ⟨h, nofun, nofun, nofun, nofun, fun _ => rfl, by rintro (h | h) <;> cases h⟩
  | ⟨l, .member o p computed⟩, n', h, hr => by
    cases hr with
    | mk _ _ hs =>
      cases hs with
      | member ho =>
        have hplain := h
        rw [plainExpression] at hplain
        simp only [Bool.and_eq_true] at hplain
        exact member_again h ho (expression_again hplain.1.2 ho)
  | ⟨l, .call f as⟩, n', h, hr => by
    cases hr with
    | mk _ _ hs =>
      cases hs with
      | call hf has =>
        have hplain := h
        rw [plainExpression] at hplain
        simp only [Bool.and_eq_true] at hplain
        exact call_again h hf (expression_again hplain.1.2 hf) (arguments_again hplain.2 has)
  | ⟨l, .assignment a v⟩, n', h, hr => by
    cases hr with
    | mk _ _ hs =>
      cases hs with
      | assignment ha hv =>
        rw [plainExpression] at h
        simp only [Bool.and_eq_true] at h
        obtain ⟨⟨⟨⟨htarget, hbare⟩, hplain⟩, hbare'⟩, hplain'⟩ := h
        have hleft := expression_again hplain ha
        have hright := expression_again hplain' hv
        refine ⟨?_, nofun, nofun, id, nofun, fun _ => rfl, fun _ => hleft.leading (.inl (isOperand_of_target htarget))⟩
        rw [plainExpression, hleft.target htarget, ha.isBare_eq, hbare, hleft.plain, hv.isBare_eq, hbare', hright.plain]
        rfl
  | ⟨l, .object ps inline⟩, n', h, hr => by
    cases hr with
    | mk _ _ hs =>
      cases hs with
      | object hps =>
        exact ⟨entries_again h hps, nofun, nofun, nofun, nofun, fun _ => rfl, by rintro (h | h) <;> cases h⟩
  | ⟨l, .array es inline⟩, n', h, hr => by
    cases hr with
    | mk _ _ hs =>
      cases hs with
      | array hes =>
        exact ⟨elements_again h hes, nofun, nofun, nofun, nofun, fun _ => rfl, by rintro (h | h) <;> cases h⟩
  | ⟨l, .access a⟩, n', h, hr => by
    cases hr with
    | mk _ _ hs => exact access_again h hs

theorem arguments_again : ∀ {as as' : List Node}, plainArguments as = true → List.Forall₂ Node.ReadsAs as as' →
    plainArguments as' = true
  | [], _, _, .nil => rfl
  | n :: as, _, h, .cons hn has => by
    rw [plainArguments] at h ⊢
    simp only [Bool.and_eq_true] at h
    rw [hn.isBare_eq, h.1.1, (expression_again h.1.2 hn).plain, arguments_again h.2 has]
    rfl

theorem entries_again : ∀ {ps ps' : List Node}, plainEntries ps = true → List.Forall₂ Node.ReadsAs ps ps' →
    plainEntries ps' = true
  | [], _, _, .nil => rfl
  | ⟨l, .property k ⟨m, .identifier x⟩ true⟩ :: ps, _, h, .cons hn hps => by
    rw [plainEntries] at h
    simp only [Bool.and_eq_true] at h
    obtain ⟨⟨⟨⟨hl, hk⟩, hx⟩, hbare⟩, h⟩ := h
    have hlayout := hn.isPlain_layout
    cases hn with
    | mk _ _ hs =>
      cases hs with
      | property hv =>
        have hm := hv.isBare_eq
        cases hv with
        | mk _ _ hv =>
          cases hv
          rw [plainEntries, entries_again h hps, hk, hx]
          simp only [Node.layout, Node.isBare] at hlayout hm
          rw [hlayout, hl, hm, hbare]
          rfl
  | ⟨l, .property k v false⟩ :: ps, _, h, .cons hn hps => by
    rw [plainEntries] at h
    simp only [Bool.and_eq_true] at h
    obtain ⟨⟨⟨⟨⟨hl, hk⟩, hbare⟩, -⟩, hplain⟩, h⟩ := h
    have hlayout := hn.isPlain_layout
    cases hn with
    | mk _ _ hs =>
      cases hs with
      | property hv =>
        have hagain := expression_again hplain hv
        rw [plainEntries, entries_again h hps, hk, hv.isBare_eq, hbare, hagain.goesBy, hagain.plain]
        simp only [Node.layout] at hlayout
        rw [hlayout, hl]
        rfl

theorem elements_again : ∀ {es es' : List Node}, plainElements es = true → List.Forall₂ Node.ReadsAs es es' →
    plainElements es' = true
  | [], _, _, .nil => rfl
  | n :: es, _, h, .cons hn hes => by
    rw [plainElements] at h ⊢
    simp only [Bool.and_eq_true] at h
    rw [hn.isPlain_layout, h.1.1, (expression_again h.1.2 hn).plain, elements_again h.2 hes]
    rfl

end

/-! ## Heads -/

/-- What a statement shows of itself among others. -/
inductive Head where
  | comment
  | function (name : Option Text)
  | imports (binding : Text)
  | returns
  | exportDefault
  | other
  deriving DecidableEq

def Shape.head : Shape → Head
  | .comment _ => .comment
  | .function f => .function f.name
  | .imports binding _ => .imports binding
  | .returns _ => .returns
  | .exportDefault _ => .exportDefault
  | _ => .other

/-- **A statement shows the same of itself when it is read back.** -/
theorem Shape.ReadsAs.head_eq (h : Shape.ReadsAs s s') : s'.head = s.head := by
  cases h with
  | number _ _ h => cases h <;> rfl
  | access ha h => rcases (Shape.ReadsAs.access ha h).of_access with ⟨_, _, _, rfl⟩ | ⟨_, _, _, _, _, rfl⟩ <;> rfl
  | _ => rfl

theorem Node.ReadsAs.head_eq (h : n.ReadsAs n') : n'.shape.head = n.shape.head := by
  cases h with
  | mk _ _ hs => exact hs.head_eq

theorem Node.ReadsAs.isComment_eq (h : n.ReadsAs n') : n'.isComment = n.isComment := by
  have hhead : ∀ n : Node, n.isComment = match n.shape.head with
      | .comment => true
      | _ => false := by
    rintro ⟨l, s⟩
    cases s <;> rfl
  rw [hhead, hhead, h.head_eq]

theorem Node.ReadsAs.finds_function (h : n.ReadsAs n') (x : Option Text) :
    (Query.function x).finds n' = (Query.function x).finds n := by
  have hhead : ∀ n : Node, (Query.function x).finds n = match n.shape.head with
      | .function y => y == x
      | _ => false := by
    rintro ⟨l, s⟩
    cases s <;> rfl
  rw [hhead, hhead, h.head_eq]

theorem Node.ReadsAs.finds_imports (h : n.ReadsAs n') (x : Option Text) :
    (Query.imports x).finds n' = (Query.imports x).finds n := by
  have hhead : ∀ n : Node, (Query.imports x).finds n = match n.shape.head with
      | .imports y => some y == x
      | _ => false := by
    rintro ⟨l, s⟩
    cases s <;> rfl
  rw [hhead, hhead, h.head_eq]

theorem blankBetween_of_heads {p p' : Node} (hp : p'.shape.head = p.shape.head) (hn : n'.shape.head = n.shape.head)
    (hl : n'.layout = n.layout) : blankBetween p' n' = blankBetween p n := by
  have hkind : ∀ s : Shape, s.gapKind = match s.head with
      | .imports _ => .imports
      | .returns => .returns
      | .function _ | .exportDefault => .functionLike
      | _ => .other := by
    intro s
    cases s <;> rfl
  rw [blankBetween_eq, blankBetween_eq, hkind, hkind, hkind, hkind, hp, hn, hl]

/-! ## Statements -/

theorem declarators_again {ds ds' : List (DeclaratorOf Node)} (h : plainDeclarators ds = true)
    (hds : List.Forall₂ Declarator.ReadsAs ds ds') : plainDeclarators ds' = true := by
  induction hds with
  | nil => rfl
  | cons hd _ ih =>
    cases hd with
    | bare =>
      rw [plainDeclarators] at h ⊢
      simp only [Bool.and_eq_true] at h
      rw [h.1.1.2, ih h.2]
      rfl
    | init he =>
      rw [plainDeclarators, Option.all_some] at h ⊢
      simp only [Bool.and_eq_true] at h
      rw [h.1.1.2, ih h.2, he.isBare_eq, h.1.2.1, (expression_again h.1.2.2 he).plain]
      rfl

theorem isComment_of_plainStatement (h : plainStatement n = true) : n.isComment = false := by
  obtain ⟨l, s⟩ := n
  cases s <;> first | rfl | cases h

/-- What follows a comment is as far from it as before. -/
theorem next_again {p p' : Node} {ns ns' : List Node} (hns : List.Forall₂ Node.ReadsAs ns ns')
    (hblanks : blanksAfter (some p') ns' = blanksAfter (some p) ns)
    (h : ns.head?.all (fun n => n.isComment || blankBetween p n) = true) :
    ns'.head?.all (fun n => n.isComment || blankBetween p' n) = true := by
  cases hns with
  | nil => rfl
  | cons hn _ =>
    rw [List.head?_cons, Option.all_some, Bool.or_eq_true] at h ⊢
    have hblank : blankBetween p' _ = blankBetween p _ := (List.cons.inj hblanks).1
    exact h.imp hn.isComment_eq.trans hblank.trans

theorem Shape.ReadsAs.of_function {f : FunctionOf Node} (h : Shape.ReadsAs (.function f) s') : ∃ body, s' = .function { f with body } ∧
    List.Forall₂ Node.ReadsAs f.body body ∧ blanksAfter none body = blanksAfter none f.body := by
  cases h with
  | function hbody hblanks => exact ⟨_, rfl, hbody, hblanks⟩

theorem plainExported_of_ne {d : Node} (h : d.isFunction = false) : plainExported l d = plainExpression d := by
  obtain ⟨m, s⟩ := d
  cases s <;> first | rfl | cases h

mutual

/-- **A plain statement is read back as a plain one.** -/
theorem statement_again : ∀ {n n' : Node}, plainStatement n = true → n.ReadsAs n' → plainStatement n' = true
  | ⟨l, .function f⟩, ⟨m, s'⟩, h, .mk _ ht hs => by
    rw [plainStatement, Bool.and_eq_true, Bool.and_eq_true] at h
    obtain ⟨body, rfl, hbody, hblanks⟩ := hs.of_function
    rw [plainStatement, function_again h.2 hbody hblanks, ht, h.1.1]
    exact (Bool.and_true _).trans h.1.2
  | ⟨_, .variables kind ds⟩, n', h, hr => by
    cases hr with
    | mk _ _ hs =>
      cases hs with
      | «variables» hds =>
        rw [plainStatement, Bool.and_eq_true, Bool.and_eq_true] at h ⊢
        refine ⟨⟨h.1.1, ?_⟩, declarators_again h.2 hds⟩
        cases hds with
        | nil => exact h.1.2
        | cons => rfl
  | ⟨_, .expression e⟩, n', h, hr => by
    cases hr with
    | mk _ _ hs =>
      cases hs with
      | expression he =>
        rw [plainStatement] at h ⊢
        simp only [Bool.and_eq_true, Bool.or_eq_true] at h ⊢
        obtain ⟨⟨⟨hbare, hkind⟩, hleading⟩, hplain⟩ := h
        have hagain := expression_again hplain he
        rw [he.isBare_eq, hagain.leading hkind]
        exact ⟨⟨⟨hbare, hkind.imp hagain.operand hagain.assignment⟩, hleading⟩, hagain.plain⟩
  | ⟨_, .returns none⟩, n', _, hr => by
    cases hr with
    | mk _ _ hs =>
      cases hs
      rfl
  | ⟨_, .returns (some e)⟩, n', h, hr => by
    cases hr with
    | mk _ _ hs =>
      cases hs with
      | returns he =>
        rw [plainStatement, Bool.and_eq_true] at h ⊢
        rw [he.isBare_eq]
        exact ⟨h.1, (expression_again h.2 he).plain⟩
  | ⟨_, .imports x source⟩, n', h, hr => by
    cases hr with
    | mk _ _ hs =>
      cases hs with
      | imports hsource =>
        rw [plainStatement] at h ⊢
        simp only [Bool.and_eq_true] at h ⊢
        have hagain := expression_again h.2 hsource
        rw [hsource.isBare_eq]
        exact ⟨⟨h.1.1, hagain.quoted h.1.2⟩, hagain.plain⟩
  | ⟨l, .exportDefault d⟩, n', h, hr => by
    have ht := hr.trailing_eq
    cases hr with
    | mk _ _ hs =>
      cases hs with
      | exportDefault hd =>
        rw [plainStatement, Bool.and_eq_true] at h ⊢
        rw [hd.isBare_eq]
        exact ⟨h.1, exported_again h.2 ht hd⟩

theorem exported_again : ∀ {d d' : Node} {l m : Layout}, plainExported l d = true → m.trailing = l.trailing → d.ReadsAs d' →
    plainExported m d' = true
  | ⟨k, s⟩, ⟨k', s'⟩, l, m, h, hl, .mk hc ht hs => by
    cases s with
    | function f =>
      rw [plainExported, Bool.and_eq_true, Bool.and_eq_true] at h
      obtain ⟨body, rfl, hbody, hblanks⟩ := hs.of_function
      rw [plainExported, function_again h.2 hbody hblanks, hl, h.1.1]
      exact (Bool.and_true _).trans h.1.2
    | _ =>
      have hf : (Node.mk k' s').isFunction = false := Shape.ReadsAs.isFunction_eq (n := ⟨k, _⟩) hs
      rw [plainExported_of_ne hf]
      exact (expression_again h (.mk hc ht hs)).plain

theorem function_again : ∀ {f : FunctionOf Node} {body : List Node}, plainFunction f = true →
    List.Forall₂ Node.ReadsAs f.body body → blanksAfter none body = blanksAfter none f.body → plainFunction { f with body } = true
  | ⟨name, params, _, isAsync⟩, _, h, hbody, hblanks => by
    rw [plainFunction, Bool.and_eq_true] at h ⊢
    exact ⟨h.1, statements_again h.2 hbody hblanks⟩

theorem statements_again : ∀ {ns ns' : List Node} {p p' : Option Node}, plainStatements ns = true →
    List.Forall₂ Node.ReadsAs ns ns' → blanksAfter p' ns' = blanksAfter p ns → plainStatements ns' = true
  | [], _, _, _, _, .nil, _ => rfl
  | n :: ns, n' :: ns', p, p', h, .cons hn hns, hblanks => by
    have hrest : blanksAfter (some n') ns' = blanksAfter (some n) ns := (List.cons.inj hblanks).2
    by_cases hc : n.isComment = true
    · obtain ⟨l, c, rfl⟩ : ∃ l c, n = ⟨l, .comment c⟩ := by
        obtain ⟨l, s⟩ := n
        cases s <;> first | exact ⟨_, _, rfl⟩ | cases hc
      obtain ⟨⟨hsound, hbare⟩, hnext, h⟩ := plainStatements_comment h
      have hbare' := hn.isBare_eq
      cases hn with
      | mk _ _ hs =>
        cases hs
        rw [plainStatements, hsound, next_again hns hrest hnext, statements_again h hns hrest]
        simp only [Node.isBare, Node.layout] at hbare'
        rw [hbare', hbare]
        rfl
    · rw [plainStatements_cons (by simpa using hc), Bool.and_eq_true, Bool.and_eq_true] at h
      have hplain := statement_again h.1.2 hn
      rw [plainStatements_cons (isComment_of_plainStatement hplain), hn.isPlain_layout, h.1.1, hplain,
        statements_again h.2 hns hrest]
      rfl

end

/-! ## Calls -/

/-- The function that is called, when it goes by its name. -/
def callee? : Node → Option Text
  | ⟨_, .call ⟨_, .identifier x⟩ _⟩ => some x
  | _ => none

/-- **A call is read back as one of the same function.** -/
theorem callee?_again (hn : plainExpression n = true) (h : n.ReadsAs n') : callee? n' = callee? n := by
  obtain ⟨l, s⟩ := n
  obtain ⟨m, s'⟩ := n'
  cases h with
  | mk _ _ hs =>
    cases hs with
    | number _ _ hs => cases hs <;> rfl
    | access ha h => rcases (Shape.ReadsAs.access ha h).of_access with ⟨_, _, _, rfl⟩ | ⟨_, _, _, _, _, rfl⟩ <;> rfl
    | @call f f' as bs hf _ =>
      rw [plainExpression] at hn
      simp only [Bool.and_eq_true] at hn
      have hoperand := hn.1.1.1
      obtain ⟨k, f⟩ := f
      cases hf with
      | mk _ _ hf =>
        cases hf with
        | @number v _ _ _ hv =>
          cases v with
          | int => cases hoperand
          | float => cases hoperand
          | _ => cases hv
        | access ha h => rcases (Shape.ReadsAs.access ha h).of_access with ⟨_, _, _, rfl⟩ | ⟨_, _, _, _, _, rfl⟩ <;> rfl
        | _ => rfl
    | _ => rfl

theorem Node.ReadsAs.finds_invocation (hn : plainStatement n = true) (h : n.ReadsAs n') (x : Option Text) :
    (Query.invocation x).finds n' = (Query.invocation x).finds n := by
  have hcallee : ∀ (l : Layout) (e : Node), (Query.invocation x).finds ⟨l, .expression e⟩ = (callee? e).any (some · == x) := by
    rintro l ⟨m, s⟩
    cases s with
    | call f as =>
      obtain ⟨k, s⟩ := f
      cases s <;> rfl
    | _ => rfl
  obtain ⟨l, s⟩ := n
  cases h with
  | mk _ _ hs =>
    cases hs with
    | number _ _ hs => cases hs <;> rfl
    | access ha h => rcases (Shape.ReadsAs.access ha h).of_access with ⟨_, _, _, rfl⟩ | ⟨_, _, _, _, _, rfl⟩ <;> rfl
    | expression he =>
      rw [plainStatement] at hn
      simp only [Bool.and_eq_true] at hn
      rw [hcallee, hcallee, callee?_again hn.2 he]
    | _ => rfl

end ApiRoutes.Script
