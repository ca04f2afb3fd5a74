import ApiRoutes.Proofs.Script.Lists
import ApiRoutes.Proofs.Script.Plain
import ApiRoutes.Proofs.Script.Quoted
/-!
# Reading operands

Names, strings, members and calls are read back (`Operand`).
-/
namespace ApiRoutes.Script

open Recogniser Grammar

/-! ## Names and strings -/

theorem isPlainName_ofChars {cs : List Char} (h : isPlainName (Text.ofChars cs) = true) :
    isWord cs = true ∧ isNameWord (String.ofList cs) = true ∧
      contextualWords.contains (String.ofList cs) = false := by
  rw [isPlainName, Text.toChars?_ofChars] at h
  simpa [and_assoc] using h

section

variable {g : Grammar} {p : Progress} {before : List Concrete} {c : Cursor} {cs r : List Char}

theorem name_reads (h : Ahead p before c) (hc : c.rest = cs ++ r) (hcs : isWord cs = true)
    (hn : isNameWord (String.ofList cs) = true) (hr : endsWord r = true) :
    Reads name p (tokenPiece before .identifier c cs) ⟨c.past cs, true⟩ := by
  have hw : wordAt c.rest = String.ofList cs := by rw [hc, wordAt_past hcs hr]
  refine Reads.bind h.word ?_
  rw [hw]
  refine .ite hn ?_
  rw [String.length_ofList]
  exact h.leaf _ _ _

theorem nameOperand_reads (h : Ahead p before c) (hc : c.rest = cs ++ r) (hcs : isWord cs = true)
    (hn : isNameWord (String.ofList cs) = true) (hr : Follows r) :
    Reads (nameOperand g) p (placeOf (tokenPiece before .identifier c cs)) ⟨c.past cs, true⟩ := by
  refine (name_reads h hc hcs hn hr.endsWord).bind ?_
  obtain ⟨ch, hch, hm⟩ := hr
  obtain ⟨c', s, ha, -, hs⟩ := hm.ahead hch (p := ⟨c.past cs, true⟩) (Cursor.rest_past hc)
  refine (ha.seesSign hs _).bind (.ite_not ?_ (.pure _ _))
  have hall : followers.all (fun ch => !(String.singleton ch == "=>")) = true := by decide
  simpa using List.all_eq_true.1 hall ch hch

/-- Where a word stands, an operand is told by the word. -/
theorem primary_word (h : Ahead p before c) (hc : c.rest = cs ++ r) (hcs : isWord cs = true)
    (hr : endsWord r = true) {cov : Cover} {q : Progress}
    (hrun : Reads (match String.ofList cs with
      | "function" => .ofPiece <$> functionFrom g .functionExpression []
      | "class" => .ofPiece <$> classFrom g false []
      | "this" | "super" => .ofPiece <$> anyWord .other
      | "true" => .ofPiece <$> anyWord (.truth true)
      | "false" => .ofPiece <$> anyWord (.truth false)
      | "null" => .ofPiece <$> anyWord .null
      | "import" => importOperand g
      | "async" => asyncOperand g
      | _ => nameOperand g) p cov q) : Reads (primary g) p cov q := by
  obtain ⟨ch, ds, rfl, hch, hd, -⟩ := isWord_iff.1 hcs
  have hne {d : Char} (h : isWordPart d = false) : ch ≠ d := fun e => by rw [e, h] at hch; cases hch
  have hquote : (ch == '\'' || ch == '"') = false := by
    rw [beq_eq_false_iff_ne.2 (hne (by decide)), beq_eq_false_iff_ne.2 (hne (by decide))]; rfl
  have hpoint : (ch == '.') = false := beq_eq_false_iff_ne.2 (hne (by decide))
  refine Reads.bind h.charsAhead ?_
  rw [hc, List.cons_append]
  split <;> rename_i heq <;> cases heq
  iterate 8 exact absurd rfl (hne (by decide))
  refine .ite_not hquote (.ite_not (by rw [hd, hpoint]; rfl) (Reads.bind h.word ?_))
  rw [hc, wordAt_past hcs hr]
  exact hrun

theorem isTokenStart_wordPart {ch : Char} (h : isWordPart ch = true) : isTokenStart ch = true := by
  have hne {d : Char} (hd : isWordPart d = false) : (ch != d) = true :=
    bne_iff_ne.2 fun e => by rw [e, hd] at h; cases h
  have hgap : isGap ch = false := by
    simp only [isWordPart, Bool.and_eq_true, Bool.not_eq_true'] at h
    exact h.1.2
  rw [isTokenStart, hgap, hne (by decide), hne (by decide), hne (by decide)]
  rfl

theorem startsToken_word (h : isWord cs = true) (r : List Char) : StartsToken (cs ++ r) := by
  obtain ⟨ch, ds, rfl, hch, -⟩ := isWord_iff.1 h
  exact startsToken_cons (isTokenStart_wordPart hch) _

/-- **A name is an operand.** -/
theorem primary_name (h : Ahead p before c) (hc : c.rest = cs ++ r)
    (hcs : isPlainName (Text.ofChars cs) = true) (hr : Follows r) :
    Reads (primary g) p (placeOf (tokenPiece before .identifier c cs)) ⟨c.past cs, true⟩ := by
  obtain ⟨hword, hn, hctx⟩ := isPlainName_ofChars hcs
  have hrun := nameOperand_reads (g := g) h hc hword hn hr
  refine primary_word h hc hword hr.endsWord ?_
  generalize String.ofList cs = w at hn hctx
  split
  iterate 8 exact absurd hn (by decide)
  · exact absurd hctx (by decide)
  · exact hrun

theorem anyWord_reads (h : Ahead p before c) (hc : c.rest = cs ++ r) (hcs : isWord cs = true)
    (hr : endsWord r = true) (kind : Kind) :
    Reads (anyWord kind) p (tokenPiece before kind c cs) ⟨c.past cs, true⟩ := by
  obtain ⟨ch, ds, rfl, -⟩ := isWord_iff.1 hcs
  refine Reads.bind h.word ?_
  rw [hc, wordAt_past hcs hr]
  refine .ite_not (by rw [← Bool.not_eq_true, String.isEmpty_iff]; simp) ?_
  rw [String.length_ofList]
  exact h.leaf _ _ _

theorem string_reads (h : Ahead p before c) (hc : c.rest = cs ++ r)
    (hcs : stringLength? cs = some cs.length) :
    Reads string p (tokenPiece before .string c cs) ⟨c.past cs, true⟩ := by
  refine Reads.bind h.charsAhead ?_
  rw [hc, stringLength?_past hcs]
  exact h.leaf _ _ _

theorem quote_of_stringLength? {n : Nat} (h : stringLength? cs = some n) :
    ∃ ch ds, cs = ch :: ds ∧ (ch = '\'' ∨ ch = '"') := by
  cases cs with
  | nil => cases h
  | cons ch ds =>
    refine ⟨ch, ds, rfl, ?_⟩
    rw [stringLength?] at h
    split at h
    · rename_i hq; simpa using hq
    · cases h

/-- **A string is an operand.** -/
theorem primary_string (h : Ahead p before c) (hc : c.rest = cs ++ r)
    (hcs : stringLength? cs = some cs.length) :
    Reads (primary g) p (.ofPiece (tokenPiece before .string c cs)) ⟨c.past cs, true⟩ := by
  have hrun := string_reads h hc hcs
  obtain ⟨ch, ds, rfl, hq⟩ := quote_of_stringLength? hcs
  refine Reads.bind h.charsAhead ?_
  rw [hc, List.cons_append]
  rcases hq with rfl | rfl
  · exact .ite rfl hrun.map
  · exact .ite rfl hrun.map

end

/-! ## Trees of expressions -/

/-- The tree stands over some characters, and is read as what the node is written as. -/
structure Concrete.Means (t : Concrete) (c : Cursor) (cs : List Char) (L : Nat) (n : Node) : Prop where
  span : t.span = ⟨c, c.past cs⟩
  value : t.kind.isValue = true
  quoted : n.isQuoted = true → t.kind = .string
  reads : ∃ s, readExpression t = .ok (.ofShape s) ∧ n.shape.ReadsAs s ∧
    expressionText L (.ofShape s) = .ok (Text.ofChars cs)

/-- The expression is the tree, after some comments. -/
structure Cover.Stands (cov : Cover) (before : List Concrete) (t : Concrete) : Prop where
  piece : cov.piece = ⟨before, some t⟩
  refusal : cov.refusal = none

theorem Cover.Stands.expression {cov : Cover} {before : List Concrete} {t : Concrete}
    (h : cov.Stands before t) (p : Progress) : Reads cov.expression p ⟨before, some t⟩ p := by
  rw [Cover.expression, h.refusal, ← h.piece]
  exact .pure _ p

theorem readExpression_role (k : Kind) (r r' : Option Role) (sp : Span) (ts : List Concrete) :
    readExpression (.node k r sp ts) = readExpression (.node k r' sp ts) := by
  cases k <;> rfl

/-! ## Accesses one after the other -/

/-- Accesses to an expression are read one after the other. -/
inductive Suffixes (g : Grammar) (p : Progress) (first : Cover) : Progress → Cover → Prop
  | refl : Suffixes g p first p first
  | step {q t : Progress} {c d : Cover} (h : Suffixes g p first q c)
      (hs : Reads (suffix? g true c) q (some d) t)
      (hlt : t.cursor.rest.length < q.cursor.rest.length) : Suffixes g p first t d

section

variable {g : Grammar} {p q : Progress} {first cov : Cover}

theorem Suffixes.goes_on (h : Suffixes g p first q cov) {fuel : Nat}
    (hf : p.cursor.rest.length < fuel) : ∃ fuel', q.cursor.rest.length < fuel' ∧
      suffixes g true fuel first p = suffixes g true fuel' cov q := by
  induction h with
  | refl => exact ⟨fuel, hf, rfl⟩
  | @step q t c d _ hs hlt ih =>
    obtain ⟨fuel', hf', he⟩ := ih
    cases fuel' with
    | zero => cases hf'
    | succ fuel' =>
      refine ⟨fuel', by omega, he.trans ?_⟩
      change (suffix? g true c >>= _) q = _
      change StateT.bind _ _ q = _
      rw [StateT.bind, show suffix? g true c q = .ok (some d, t) from hs]
      rfl

/-- **The accesses that follow are read** up to the last. -/
theorem Suffixes.reads (h : Suffixes g p first q cov) (hend : Reads (suffix? g true cov) q none q) :
    Reads (suffixes g true (p.cursor.rest.length + 1) first) p cov q := by
  obtain ⟨fuel, hf, he⟩ := h.goes_on (Nat.lt_succ_self p.cursor.rest.length)
  unfold Reads
  rw [he]
  cases fuel with
  | zero => cases hf
  | succ fuel => exact hend.bind (.pure _ _)

end

theorem Node.readsAs_of_bare {n : Node} {s : Shape} (hn : n.isBare = true) (h : n.shape.ReadsAs s) :
    n.ReadsAs (.ofShape s) := by
  obtain ⟨l, s'⟩ := n
  rw [Node.isBare, Layout.isBare, Bool.and_eq_true, List.isEmpty_iff, Option.isNone_iff_eq_none] at hn
  exact .mk hn.1.symm hn.2.symm h

theorem signAt_point {ch : Char} {r : List Char} (h : ch ≠ '.') : signAt ('.' :: ch :: r) = "." := by
  have h' : ('.' == ch) = false := beq_eq_false_iff_ne.2 h.symm
  simp [signAt, signs, List.isPrefixOf, h']

theorem stringOf_eq {t : Concrete} {cs : List Char} {v : Text} (hk : t.kind = .string)
    (ht : t.text = Text.ofChars cs) (hv : unquote (Text.ofChars cs) = .ok v) :
    stringOf t = .ok (v, Text.ofChars cs) := by
  rw [stringOf, if_pos hk, ht, hv]

/-- An operand is read from a place on: a first expression and accesses to it. -/
def Operand (g : Grammar) (L : Nat) (p : Progress) (before : List Concrete) (c : Cursor) (n : Node)
    (cs : List Char) : Prop :=
  ∃ first q cov t, Reads (primary g) p first q ∧ Suffixes g q first ⟨c.past cs, true⟩ cov ∧
    cov.Stands before t ∧ t.Means c cs L n ∧
    (n.isTarget = true → cov.isTarget = true ∧ t.kind ≠ .object ∧ t.kind ≠ .array)

section

variable {g : Grammar} {L : Nat} {p : Progress} {before : List Concrete} {c : Cursor} {cs r : List Char}

/-- **A name is read as itself.** -/
theorem operand_name {l : Layout} {cs : List Char} (h : Ahead p before c) (hc : c.rest = cs ++ r)
    (hcs : isPlainName (Text.ofChars cs) = true) (hr : Follows r) :
    Operand g L p before c ⟨l, .identifier (Text.ofChars cs)⟩ cs := by
  refine ⟨_, _, _, _, primary_name h hc hcs hr, .refl, ⟨rfl, rfl⟩, ⟨rfl, rfl, nofun, _, ?_, .identifier _, rfl⟩,
    fun _ => ⟨rfl, nofun, nofun⟩⟩
  rw [readExpression, Span.text_past hc]
  rfl

/-- **A string is read as itself.** -/
theorem operand_string {l : Layout} {t : Text} {raw : Option Text} (h : Ahead p before c)
    (hc : c.rest = cs ++ r) (hcs : literalText (.text t) raw = .ok (Text.ofChars cs))
    (hlen : stringLength? cs = some cs.length) (hval : unquote (Text.ofChars cs) = .ok t) :
    Operand g L p before c ⟨l, .literal (.text t) raw⟩ cs := by
  refine ⟨_, _, _, _, primary_string h hc hlen, .refl, ⟨rfl, rfl⟩, ⟨rfl, rfl, fun _ => rfl, _, ?_, .literal rfl hcs, rfl⟩,
    fun ht => nomatch ht⟩
  have hs := stringOf_eq (t := .node .string none ⟨c, c.past cs⟩ []) rfl (Span.text_past hc) hval
  rw [readExpression, stringLiteral, hs]
  rfl

theorem memberFrom_reads {t : Concrete} {cov : Cover} {ps : List Char} (hcov : cov.Stands before t)
    (hc : c.rest = '.' :: ps ++ r) (hps : isWord ps = true) (hr : Follows r) :
    Reads (suffix? g true cov) ⟨c, true⟩ (some (placeOf (.node .member
      [(⟨before, some t⟩ : Piece).inRole .object, tokenPiece [] (.token ".") c ['.'],
        (tokenPiece [] .propertyName (c.past ['.']) ps).inRole .property])))
      ⟨c.past ('.' :: ps), true⟩ := by
  have hc₁ : (c.past ['.']).rest = ps ++ r := Cursor.rest_past hc
  have ha : Ahead ⟨c, true⟩ [] c := ahead_here (by rw [hc]; exact startsToken_cons rfl _)
  have ha₁ : Ahead ⟨c.past ['.'], false⟩ [] (c.past ['.']) :=
    ahead_here (by rw [hc₁]; exact startsToken_word hps r)
  have hany := anyWord_reads ha₁ hc₁ hps hr.endsWord .propertyName
  obtain ⟨ch, ds, rfl, hch, -⟩ := isWord_iff.1 hps
  have hne {d : Char} (h : isWordPart d = false) : ch ≠ d := fun e => by rw [e, h] at hch; cases hch
  have hpoint : signAt c.rest = "." := by
    rw [hc, List.cons_append, List.cons_append]
    exact signAt_point (hne (by decide))
  refine Reads.bind ha.sign ?_
  rw [hpoint]
  refine (hcov.expression _).bind ((ha.expectSign hpoint).bind (Reads.map ?_))
  refine Reads.bind ha₁.charsAhead ?_
  rw [hc₁, List.cons_append]
  split
  · rename_i heq
    cases heq
    exact absurd rfl (hne (by decide))
  · exact Reads.bind hany (.pure _ _)

/-- The tree of a member of an object. -/
def memberTree (t : Concrete) (c d : Cursor) (ps : List Char) : Concrete :=
  .node .member none ⟨c, d.past ('.' :: ps)⟩ [t.withRole .object, .node (.token ".") none ⟨d, d.past ['.']⟩ [],
    .node .propertyName (some .property) ⟨d.past ['.'], d.past ('.' :: ps)⟩ []]

theorem Concrete.Means.member {l : Layout} {o : Node} {t : Concrete} {os ps : List Char} (ht : t.Means c os L o)
    (ho : o.isBare = true) (hc : c.rest = os ++ ('.' :: ps ++ r)) :
    (memberTree t c (c.past os) ps).Means c (os ++ '.' :: ps) L ⟨l, .member o (Text.ofChars ps) false⟩ := by
  obtain ⟨k, role, sp, ts⟩ := t
  obtain ⟨-, hk, -, s, hread, hsame, htext⟩ := ht
  refine ⟨by rw [Cursor.past_append]; rfl, rfl, nofun, .member (.ofShape s) (Text.ofChars ps) false, ?_,
    .member (Node.readsAs_of_bare ho hsame), ?_⟩
  · have hchain : noOptionalChain (memberTree (.node k role sp ts) c (c.past os) ps).children = .ok () := by
      have : k ≠ .optionalChain := by rintro rfl; cases hk
      simp [noOptionalChain, memberTree, Concrete.children, Concrete.withRole, Concrete.kind, this]
    have htext : Span.text ⟨(c.past os).past ['.'], (c.past os).past ('.' :: ps)⟩ = Text.ofChars ps :=
      Span.text_past (r := r) (Cursor.rest_past (Cursor.rest_past hc))
    rw [readExpression_role k role (some .object)] at hread
    rw [memberTree, readExpression]
    change orKeep _ (do noOptionalChain (memberTree (.node k role sp ts) c (c.past os) ps).children; _) = _
    rw [hchain]
    change orKeep _ (do
      let o ← readExpression (.node k (some .object) sp ts)
      return .member o (Span.text ⟨(c.past os).past ['.'], (c.past os).past ('.' :: ps)⟩) false) = _
    rw [hread, htext]
    rfl
  · rw [Node.ofShape, expressionText, htext, Text.ofChars_append]
    exact congrArg Except.ok (List.append_assoc _ _ _)

/-- **A member of an operand is an operand.** -/
theorem Operand.member {l : Layout} {o : Node} {os ps : List Char} (h : Operand g L p before c o os)
    (ho : o.isBare = true) (hc : c.rest = os ++ ('.' :: ps ++ r)) (hps : isWord ps = true) (hr : Follows r) :
    Operand g L p before c ⟨l, .member o (Text.ofChars ps) false⟩ (os ++ '.' :: ps) := by
  obtain ⟨first, q, cov, t, hfirst, hsuffixes, hstands, ht, -⟩ := h
  have hos := Cursor.rest_past hc
  have hs : Reads (suffix? g true cov) ⟨c.past os, true⟩
      (some (placeOf ⟨before, some (memberTree t c (c.past os) ps)⟩)) ⟨c.past (os ++ '.' :: ps), true⟩ := by
    have := memberFrom_reads hstands hos hps hr (g := g)
    rw [Cursor.past_append]
    obtain ⟨k, role, sp, ts⟩ := t
    obtain rfl : sp = ⟨c, c.past os⟩ := ht.span
    exact this
  refine ⟨first, q, _, _, hfirst, hsuffixes.step hs ?_, ⟨rfl, rfl⟩, ht.member ho hc,
    fun _ => ⟨rfl, nofun, nofun⟩⟩
  rw [hos, Cursor.past_append, Cursor.rest_past hos, List.length_append]
  exact Nat.lt_add_of_pos_left (Nat.succ_pos _)

/-- The grammar reads back every plain expression with fewer than `N` characters. -/
def Grammar.ReadsExpressions (g : Grammar) (N : Nat) : Prop :=
  ∀ {L : Nat} {n : Node} {cs r : List Char} {p : Progress} {before : List Concrete} {c : Cursor},
    plainExpression n = true → expressionText L n = .ok (Text.ofChars cs) → cs.length < N →
    Ahead p before c → c.rest = cs ++ r → Closes r →
    ∃ cov t, Reads g.cover p cov ⟨c.past cs, true⟩ ∧ cov.Stands before t ∧ t.Means c cs L n

theorem expression_reads {cov : Cover} {t : Concrete} {q : Progress} (h : Reads g.cover p cov q)
    (ht : cov.Stands before t) : Reads g.expression p ⟨before, some t⟩ q :=
  h.bind (ht.expression q)

theorem expressions_reads {cov : Cover} {t : Concrete} {q : Progress} (h : Reads g.cover p cov q)
    (ht : cov.Stands before t) (hnext : Reads (seesSign ",") q false q) :
    Reads g.expressions p ⟨before, some t⟩ q := by
  have hlist : Reads (commaSeparated g.expression) p [⟨before, some t⟩] q :=
    (expression_reads h ht).bind ((many_nil hnext).bind (.pure _ q))
  exact hlist.bind (.pure _ q)

/-- The tree of an indexed member of an object. -/
def subscriptTree (t : Concrete) (c d : Cursor) (i : Concrete) (is : List Char) : Concrete :=
  .node .subscript none ⟨c, d.past ('[' :: is ++ [']'])⟩ [t.withRole .object,
    .node (.token "[") none ⟨d, d.past ['[']⟩ [], i.withRole .index,
    .node (.token "]") none ⟨d.past ('[' :: is), d.past ('[' :: is ++ [']'])⟩ []]

theorem Concrete.Means.subscript {l : Layout} {o : Node} {t i : Concrete} {os is : List Char} {x : Text}
    (ht : t.Means c os L o) (ho : o.isBare = true) (hi : i.kind = .string) (hitext : i.text = Text.ofChars is)
    (his : quote x = Text.ofChars is) :
    (subscriptTree t c (c.past os) i is).Means c (os ++ ('[' :: is ++ [']'])) L ⟨l, .member o x true⟩ := by
  obtain ⟨k, role, sp, ts⟩ := t
  obtain ⟨ki, rolei, spi, tsi⟩ := i
  cases hi
  obtain ⟨-, hk, -, s, hread, hsame, htext⟩ := ht
  refine ⟨by rw [Cursor.past_append]; rfl, rfl, nofun, .member (.ofShape s) x true, ?_,
    .member (Node.readsAs_of_bare ho hsame), ?_⟩
  · have hchain : noOptionalChain (subscriptTree (.node k role sp ts) c (c.past os) (.node .string rolei spi tsi) is).children
        = .ok () := by
      have : k ≠ .optionalChain := by rintro rfl; cases hk
      simp [noOptionalChain, subscriptTree, Concrete.children, Concrete.withRole, Concrete.kind, this]
    have hstring : stringOf (.node .string (some .index) spi tsi) = .ok (x, Text.ofChars is) :=
      stringOf_eq rfl hitext (by rw [← his, unquote_quote])
    rw [readExpression_role k role (some .object)] at hread
    rw [subscriptTree, readExpression]
    change orKeep _ (do
      noOptionalChain (subscriptTree (.node k role sp ts) c (c.past os) (.node .string rolei spi tsi) is).children; _) = _
    rw [hchain]
    change orKeep _ (do
      let o ← readExpression (.node k (some .object) sp ts)
      return .member o (← stringOf (.node .string (some .index) spi tsi)).1 true) = _
    rw [hread, hstring]
    rfl
  · rw [Node.ofShape, expressionText, htext, Text.ofChars_append]
    change Except.ok (Text.ofChars os ++ Text.ofString "[" ++ quote x ++ Text.ofString "]") = _
    rw [his, List.append_assoc, List.append_assoc]
    congr 2
    exact (Text.ofChars_append ('[' :: is) [']']).symm

theorem subscriptFrom_reads {t : Concrete} {cov : Cover} {is : List Char} {x : Text} {N : Nat}
    (hg : g.ReadsExpressions N) (hcov : cov.Stands before t) (his : quote x = Text.ofChars is)
    (hN : is.length < N) (hc : c.rest = '[' :: is ++ ([']'] ++ r)) :
    ∃ i, i.kind = .string ∧ i.text = Text.ofChars is ∧ Reads (suffix? g true cov) ⟨c, true⟩
      (some (placeOf (.node .subscript [(⟨before, some t⟩ : Piece).inRole .object, tokenPiece [] (.token "[") c ['['],
        (⟨[], some i⟩ : Piece).inRole .index, tokenPiece [] (.token "]") (c.past ('[' :: is)) [']']])))
      ⟨c.past ('[' :: is ++ [']']), true⟩ := by
  have hin : (c.past ['[']).rest = is ++ ([']'] ++ r) := Cursor.rest_past hc
  have hend : (c.past ('[' :: is)).rest = [']'] ++ r := Cursor.rest_past hc
  have ha : Ahead ⟨c, true⟩ [] c := ahead_here (by rw [hc]; exact startsToken_cons rfl _)
  have hquote : StartsToken (is ++ ([']'] ++ r)) := by
    obtain ⟨ch, ds, rfl, hq⟩ := quote_of_stringLength? (stringLength?_quote his)
    rcases hq with rfl | rfl <;> exact startsToken_cons rfl _
  have hai : Ahead ⟨c.past ['['], false⟩ [] (c.past ['[']) := ahead_here (by rw [hin]; exact hquote)
  have hplain : plainExpression (.ofShape (.literal (.text x) none)) = true := by
    change isWritable (quote x) = true
    rw [his, isWritable_ofChars]
  obtain ⟨covi, i, hi, hicov, himeans⟩ := hg (L := 0) (n := .ofShape (.literal (.text x) none)) hplain
    (by rw [← his]; rfl) hN hai hin ⟨']', by decide, [], r, rfl, .inl rfl, rfl⟩
  rw [← Cursor.past_cons] at hi
  have haend : Ahead ⟨c.past ('[' :: is), true⟩ [] (c.past ('[' :: is)) :=
    ahead_here (by rw [hend]; exact startsToken_cons rfl _)
  have hsign : signAt (c.past ('[' :: is)).rest = "]" := by rw [hend]; rfl
  refine ⟨i, himeans.quoted rfl, ?_, ?_⟩
  · rw [Concrete.text, himeans.span, Span.text_past hin]
  · refine Reads.bind ha.sign ?_
    rw [show signAt c.rest = "[" by rw [hc]; rfl]
    refine (hcov.expression _).bind (Reads.map ?_)
    refine (ha.expectSign (by rw [hc]; rfl)).bind ?_
    refine (expressions_reads hi hicov (haend.seesSign hsign _)).bind ?_
    rw [Cursor.past_append]
    exact (haend.expectSign hsign).bind (.pure _ _)

/-- **An indexed member of an operand is an operand.** -/
theorem Operand.subscript {l : Layout} {o : Node} {os is : List Char} {x : Text} {N : Nat}
    (hg : g.ReadsExpressions N) (h : Operand g L p before c o os) (ho : o.isBare = true)
    (his : quote x = Text.ofChars is) (hN : is.length < N) (hc : c.rest = os ++ ('[' :: is ++ ([']'] ++ r))) :
    Operand g L p before c ⟨l, .member o x true⟩ (os ++ ('[' :: is ++ [']'])) := by
  obtain ⟨first, q, cov, t, hfirst, hsuffixes, hstands, ht, -⟩ := h
  have hos := Cursor.rest_past hc
  obtain ⟨i, hi, hitext, hs⟩ := subscriptFrom_reads hg hstands his hN hos
  have hs : Reads (suffix? g true cov) ⟨c.past os, true⟩
      (some (placeOf ⟨before, some (subscriptTree t c (c.past os) i is)⟩))
      ⟨c.past (os ++ ('[' :: is ++ [']'])), true⟩ := by
    rw [Cursor.past_append]
    obtain ⟨k, role, sp, ts⟩ := t
    obtain rfl : sp = ⟨c, c.past os⟩ := ht.span
    rw [Cursor.past_append _ ('[' :: is)] at hs
    rw [subscriptTree, Cursor.past_append _ ('[' :: is)]
    exact hs
  refine ⟨first, q, _, _, hfirst, hsuffixes.step hs ?_, ⟨rfl, rfl⟩, ht.subscript ho hi hitext his,
    fun _ => ⟨rfl, nofun, nofun⟩⟩
  rw [← List.append_assoc] at hos
  rw [hos, Cursor.past_append, Cursor.rest_past hos, List.length_append]
  exact Nat.lt_add_of_pos_left (Nat.succ_pos _)

end

end ApiRoutes.Script
