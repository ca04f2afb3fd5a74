import ApiRoutes.Proofs.Script.Texts
/-!
# Reading calls

The arguments of a call are read back, and with them all expressions that start with a name or a string
(`operand_reads`).
-/
namespace ApiRoutes.Script

open Recogniser Grammar

/-! ## Items -/

/-- The tree is read back as what the node is written as. -/
def ReadsBack (read : Concrete → Reading Node) (text : Node → Outcome Text) (x : Node × List Char) (t : Concrete) :
    Prop :=
  ∃ s, read t = .ok (.ofShape s) ∧ x.1.shape.ReadsAs s ∧ text (.ofShape s) = .ok (Text.ofChars x.2)

/-- The nodes and the characters that they are written with, in pairs. -/
theorem forall₂_pairs {α β : Type} {R : α → β → Prop} {as : List α} {bs : List β} (h : List.Forall₂ R as bs) :
    ∃ xs : List (α × β), xs.map Prod.fst = as ∧ xs.map Prod.snd = bs ∧ ∀ x ∈ xs, R x.1 x.2 := by
  induction h with
  | nil => exact ⟨[], rfl, rfl, nofun⟩
  | @cons a b _ _ hab _ ih =>
    obtain ⟨xs, hfst, hsnd, hxs⟩ := ih
    refine ⟨(a, b) :: xs, by rw [List.map_cons, hfst], by rw [List.map_cons, hsnd], ?_⟩
    exact List.forall_mem_cons.2 ⟨hab, hxs⟩

theorem length_le_joinChars : ∀ {xs : List (List Char)}, ∀ x ∈ xs, x.length ≤ (joinChars xs).length
  | [], _, h => nomatch h
  | [y], x, h => by
    rw [List.mem_singleton.1 h]
    exact Nat.le_refl _
  | y :: z :: xs, x, h => by
    rw [joinChars, List.length_append, List.length_cons, List.length_cons]
    rcases List.mem_cons.1 h with rfl | h
    · exact Nat.le_add_right _ _
    · have := length_le_joinChars x h
      omega

/-- Trees that are read back give the nodes and their texts. -/
theorem ReadsBack.nodes {L : Nat} {xs : List (Node × List Char)} {ts : List Concrete}
    (h : List.Forall₂ (ReadsBack readExpression (expressionText L)) xs ts) (hbare : ∀ x ∈ xs, x.1.isBare = true) : ∃ ms : List Node,
      List.Forall₂ (fun t m => readExpression t = .ok m) ts ms ∧
      List.Forall₂ Node.ReadsAs (xs.map Prod.fst) ms ∧
      expressionTexts L ms = .ok ((xs.map Prod.snd).map Text.ofChars) := by
  induction h with
  | nil => exact ⟨[], .nil, .nil, rfl⟩
  | cons hx _ ih =>
    obtain ⟨s, hread, hsame, htext⟩ := hx
    obtain ⟨hb, hbare⟩ := List.forall_mem_cons.1 hbare
    obtain ⟨ms, hreads, hsames, htexts⟩ := ih hbare
    refine ⟨.ofShape s :: ms, .cons hread hreads, .cons (Node.readsAs_of_bare hb hsame) hsames, ?_⟩
    rw [expressionTexts, htext, htexts]
    rfl

section

variable {g : Grammar} {N L : Nat} {p : Progress} {before : List Concrete} {c : Cursor} {n : Node}
  {cs r : List Char}

/-- A plain expression is read as a part of an array or of the arguments of a call. -/
theorem item_reads (hg : g.ReadsExpressions N) (hn : plainExpression n = true)
    (ht : expressionText L n = .ok (Text.ofChars cs)) (hN : cs.length < N) (ha : Ahead p before c)
    (hc : c.rest = cs ++ r) (hr : Closes r) :
    ∃ cov t, Reads (item g) p cov ⟨c.past cs, true⟩ ∧ cov.Stands before t ∧ t.Means c cs L n := by
  obtain ⟨cov, t, hread, hstands, hmeans⟩ := hg hn ht hN ha hc hr
  refine ⟨cov, t, (ha.seesSign rfl _).bind (.ite_not ?_ hread), hstands, hmeans⟩
  have := (begins_of_plain hn ht r).2
  rw [← hc] at this
  simp only [List.mem_cons, List.not_mem_nil, or_false] at this
  rcases this with h | h | h | h <;> rw [h] <;> decide

/-- The tree of a sign. -/
def signTree (ch : Char) (c : Cursor) : Concrete := .node (.token (String.singleton ch)) none ⟨c, c.past [ch]⟩ []

/-- **A sign is read** where it stands. -/
theorem sign_reads (ch : Char) (ha : Ahead p before c) (hs : signAt c.rest = String.singleton ch) :
    Reads (expectSign (String.singleton ch)) p ⟨before, some (signTree ch c)⟩
      ⟨c.past [ch], endsOperand (String.singleton ch)⟩ := by
  have := ha.expectSign hs
  rwa [tokenPiece, String.toList_singleton] at this

theorem comma_reads : ReadsComma (expectSign ",") id (fun _ => True) := fun ha hs =>
  ⟨_, ha.expectSign hs, rfl, trivial⟩

/-- A node from one tree to another. -/
theorem node_between (k : Kind) (t u : Concrete) (ps : List Piece) (between : List Concrete) :
    Piece.node k (⟨before, some t⟩ :: ps ++ [⟨between, some u⟩]) =
      ⟨before, some (.node k none ⟨t.span.start, u.span.stop⟩ (t :: (ps.flatMap Piece.trees ++ between ++ [u])))⟩ := by
  have hall : (ps ++ [⟨between, some u⟩] : List Piece).flatMap Piece.trees =
      ps.flatMap Piece.trees ++ between ++ [u] := by
    rw [List.flatMap_append, List.flatMap_singleton, List.append_assoc]
    rfl
  rw [List.cons_append, Piece.node, hall]
  have hlast : (t :: (ps.flatMap Piece.trees ++ between ++ [u])).getLast? = some u := by
    rw [← List.cons_append, List.getLast?_concat]
  change Piece.mk before (some (.node k none ⟨t.span.start,
    (((t :: (ps.flatMap Piece.trees ++ between ++ [u])).getLast?).getD t).span.stop⟩ _)) = _
  rw [hlast]
  rfl

/-! ## Arguments -/

/-- The tree of the arguments of a call. -/
def argumentsTree (c : Cursor) (xs : List Char) (all : List Concrete) : Concrete :=
  .node .arguments none ⟨c, c.past ('(' :: (xs ++ [')']))⟩
    (signTree '(' c :: (all ++ [signTree ')' (c.past ('(' :: xs))]))

theorem plainArguments_mem : ∀ {as : List Node}, plainArguments as = true →
    ∀ n ∈ as, n.isBare = true ∧ plainExpression n = true
  | n :: as, h, m, hm => by
    rw [plainArguments] at h
    simp only [Bool.and_eq_true] at h
    rcases List.mem_cons.1 hm with rfl | hm
    · exact h.1
    · exact plainArguments_mem h.2 m hm

/-- **The arguments of a call are read back.** -/
theorem arguments_reads (hg : g.ReadsExpressions N) {xs : List (Node × List Char)}
    (hxs : ∀ x ∈ xs, plainExpression x.1 = true ∧ expressionText L x.1 = .ok (Text.ofChars x.2))
    (hN : (joinChars (xs.map Prod.snd)).length < N) (ha : Ahead p before c)
    (hc : c.rest = '(' :: (joinChars (xs.map Prod.snd) ++ [')']) ++ r) :
    ∃ ts all, Reads (arguments g) p ⟨before, some (argumentsTree c (joinChars (xs.map Prod.snd)) all)⟩
        ⟨c.past ('(' :: (joinChars (xs.map Prod.snd) ++ [')'])), true⟩ ∧
      List.Forall₂ (ReadsBack readExpression (expressionText L)) xs ts ∧ Interspersed ts all := by
  have hitems : ∀ x ∈ xs, ReadsItem ')' (do (← item g).expression) id (fun _ => True) Prod.snd (ReadsBack readExpression (expressionText L)) x := by
    intro x hx
    obtain ⟨hn, ht⟩ := hxs x hx
    refine ⟨begins_of_plain hn ht, fun ha hc hr => ?_⟩
    have hlen := length_le_joinChars x.2 (List.mem_map_of_mem hx)
    obtain ⟨cov, t, hread, hstands, hmeans⟩ := item_reads hg hn ht (Nat.lt_of_le_of_lt hlen hN) ha hc
      (hr.closes (by decide))
    exact ⟨_, t, hread.bind (hstands.expression _), rfl, trivial, hmeans.span, hmeans.value, hmeans.reads⟩
  have hopen := sign_reads '(' ha (by rw [hc]; rfl)
  have hin : (c.past ['(']).rest = joinChars (xs.map Prod.snd) ++ ([] ++ ')' :: r) := by
    refine Cursor.rest_past ?_
    rw [hc]
    simp
  obtain ⟨ps, ts, b, hlist, hback, hall, -⟩ := looseListUpTo_reads rfl comma_reads (.inl rfl) (.inl rfl)
    (fun _ => rfl) hitems (p := ⟨c.past ['('], false⟩) hin
  have hend : (c.past ('(' :: joinChars (xs.map Prod.snd))).rest = [')'] ++ r := by
    rw [Cursor.past_cons]
    exact Cursor.rest_past hin
  rw [List.nil_append, ← Cursor.past_cons] at hlist
  have hclose := sign_reads (p := ⟨c.past ('(' :: joinChars (xs.map Prod.snd)), b⟩) ')'
    (ahead_here (by rw [hend]; exact startsToken_cons rfl r)) (by rw [hend]; rfl)
  rw [List.map_id] at hall
  refine ⟨ts, ps.flatMap Piece.trees, ?_, hback, hall⟩
  rw [argumentsTree, ← List.cons_append, Cursor.past_append]
  refine hopen.bind (hlist.bind (hclose.bind ?_))
  rw [node_between, List.append_nil]
  exact .pure _ _

/-- The tree of a call. -/
def callTree (t : Concrete) (c d : Cursor) (xs : List Char) (all : List Concrete) : Concrete :=
  .node .call none ⟨c, d.past ('(' :: (xs ++ [')']))⟩
    [t.withRole .callee, (argumentsTree d xs all).withRole .arguments]

theorem Concrete.Means.call {l : Layout} {f : Node} {t : Concrete} {fs : List Char}
    {xs : List (Node × List Char)} {ts all : List Concrete} (ht : t.Means c fs L f) (hf : f.isBare = true)
    (hxs : ∀ x ∈ xs, x.1.isBare = true) (hts : List.Forall₂ (ReadsBack readExpression (expressionText L)) xs ts) (hall : Interspersed ts all) :
    (callTree t c (c.past fs) (joinChars (xs.map Prod.snd)) all).Means c
      (fs ++ ('(' :: (joinChars (xs.map Prod.snd) ++ [')']))) L ⟨l, .call f (xs.map Prod.fst)⟩ := by
  obtain ⟨k, role, sp, us⟩ := t
  obtain ⟨-, hk, -, s, hread, hsame, htext⟩ := ht
  obtain ⟨ms, hreads, hsames, htexts⟩ := ReadsBack.nodes hts hxs
  refine ⟨by rw [Cursor.past_append]; rfl, rfl, nofun, .call (.ofShape s) ms, ?_,
    .call (Node.readsAs_of_bare hf hsame) hsames, ?_⟩
  · have hchain : noOptionalChain (callTree (.node k role sp us) c (c.past fs)
        (joinChars (xs.map Prod.snd)) all).children = .ok () := by
      have : k ≠ .optionalChain := by rintro rfl; cases hk
      simp [noOptionalChain, callTree, argumentsTree, Concrete.children, Concrete.withRole, Concrete.kind, this]
    have hclose (d : Cursor) : (signTree ')' d).kind = .token ")" := rfl
    have hno : noComments (argumentsTree (c.past fs) (joinChars (xs.map Prod.snd)) all).children = .ok () := by
      rw [noComments, argumentsTree, Concrete.children, List.any_cons, hall.noComments (hclose _)]
      rfl
    have hargs : readExpressions (argumentsTree (c.past fs) (joinChars (xs.map Prod.snd)) all).children = .ok ms :=
      hall.readExpressions hreads (hclose _)
    rw [readExpression_role k role (some .callee)] at hread
    rw [callTree, readExpression]
    change orKeep _ (do
      noOptionalChain (callTree (.node k role sp us) c (c.past fs) (joinChars (xs.map Prod.snd)) all).children
      let f ← readExpression (.node k (some .callee) sp us)
      noComments (argumentsTree (c.past fs) (joinChars (xs.map Prod.snd)) all).children
      return .call f (← readExpressions (argumentsTree (c.past fs) (joinChars (xs.map Prod.snd)) all).children)) = _
    rw [hchain, hread, hno, hargs]
    rfl
  · rw [Node.ofShape, expressionText, htexts, htext]
    change Except.ok (Text.ofChars fs ++ "(" ++ Text.joinWith ", " ((xs.map Prod.snd).map Text.ofChars) ++ ")" : Text) = _
    rw [joinWith_chars, ← List.cons_append, Text.ofChars_append, Text.ofChars_append, List.append_assoc,
      List.append_assoc]
    rfl

/-- **A call of an operand is an operand.** -/
theorem Operand.call {l : Layout} {f : Node} {fs : List Char} {xs : List (Node × List Char)}
    (hg : g.ReadsExpressions N) (h : Operand g L p before c f fs) (hf : f.isBare = true)
    (hxs : ∀ x ∈ xs, (x.1.isBare = true ∧ plainExpression x.1 = true) ∧ expressionText L x.1 = .ok (Text.ofChars x.2))
    (hN : (joinChars (xs.map Prod.snd)).length < N)
    (hc : c.rest = fs ++ ('(' :: (joinChars (xs.map Prod.snd) ++ [')']) ++ r)) :
    Operand g L p before c ⟨l, .call f (xs.map Prod.fst)⟩ (fs ++ ('(' :: (joinChars (xs.map Prod.snd) ++ [')']))) := by
  obtain ⟨first, q, cov, t, hfirst, hsuffixes, hstands, ht, -⟩ := h
  have hfs := Cursor.rest_past hc
  have ha : Ahead ⟨c.past fs, true⟩ [] (c.past fs) := ahead_here (by rw [hfs]; exact startsToken_cons rfl _)
  obtain ⟨ts, all, hargs, hts, hall⟩ := arguments_reads hg (fun x hx => ⟨(hxs x hx).1.2, (hxs x hx).2⟩) hN ha hfs
  have hs : Reads (suffix? g true cov) ⟨c.past fs, true⟩
      (some (.ofPiece ⟨before, some (callTree t c (c.past fs) (joinChars (xs.map Prod.snd)) all)⟩))
      ⟨c.past (fs ++ ('(' :: (joinChars (xs.map Prod.snd) ++ [')']))), true⟩ := by
    refine Reads.bind ha.sign ?_
    rw [show signAt (c.past fs).rest = "(" by rw [hfs]; rfl]
    refine .ite rfl ((hstands.expression _).bind (Reads.map (hargs.bind ?_)))
    obtain ⟨k, role, sp, us⟩ := t
    obtain rfl : sp = ⟨c, c.past fs⟩ := ht.span
    rw [Cursor.past_append]
    exact .pure _ _
  refine ⟨first, q, _, _, hfirst, hsuffixes.step hs ?_, ⟨rfl, rfl⟩,
    ht.call hf (fun x hx => (hxs x hx).1.1) hts hall, fun h => nomatch h⟩
  rw [hfs, Cursor.past_append, Cursor.rest_past hfs, List.length_append]
  exact Nat.lt_add_of_pos_left (Nat.succ_pos _)

end

/-! ## Operands -/

/-- Accesses come after the expressions that they are written as. -/
def accessRank : Node → Nat
  | ⟨_, .access _⟩ => 1
  | _ => 0

theorem accessRank_le (n : Node) : accessRank n ≤ 1 := by
  unfold accessRank
  split <;> decide

/-- **The expression of an access** is a member of a collection of the request, the call for a header, or the body. -/
theorem Access.expression?_cases {a : Access} {e : Node} (he : a.expression? = some e) :
    (∃ collection, collectionOf? a.location = some collection ∧ e = .ofShape (.member
      (.ofShape (.member (.ofShape (.identifier a.request)) collection false)) a.name (!isIdentifier a.name))) ∨
    (a.location = "header" ∧ e = .ofShape (.call (.ofShape (.member (.ofShape (.identifier a.request)) "get" false))
      [.ofShape (.literal (.text a.name) none)])) ∨
    (a.location = "body" ∧ e = .ofShape (.member (.ofShape (.identifier a.request)) "body" false)) := by
  rw [Access.expression?] at he
  split at he
  · cases he
    exact .inl ⟨_, ‹_›, rfl⟩
  · split at he
    · cases he
      exact .inr (.inl ⟨‹_›, rfl⟩)
    · split at he
      · cases he
        exact .inr (.inr ⟨‹_›, rfl⟩)
      · cases he

/-- Is the name of the parameter written as it is?  That of a header is always quoted, and the body is read without
a name. -/
def Access.spellsName (a : Access) : Bool :=
  match collectionOf? a.location with
  | some _ => isPlainKey a.name
  | none => if a.location = "header" then isWritable (quote a.name) else true

theorem Access.spellsName_of_isPlainKey {a : Access} (h : isPlainKey a.name = true) : a.spellsName = true := by
  rw [Access.spellsName]
  split
  · exact h
  · split
    · exact isWritable_quote h
    · rfl

/-- **The expression of an access is plain** when the request is named plainly and the parameter's name is written
as it is. -/
theorem expression_plain {a : Access} {e : Node} (hrequest : isPlainName a.request = true) (hname : a.spellsName = true)
    (he : a.expression? = some e) : plainExpression e = true ∧ e.isOperand = true ∧ accessRank e = 0 := by
  have hobject {l : Layout} : plainExpression ⟨l, .identifier a.request⟩ = true := hrequest
  have hmember {w : String} (hw : isPlainWord w = true) :
      plainExpression (.ofShape (.member (.ofShape (.identifier a.request)) w false)) = true := by
    rw [Node.ofShape, plainExpression, Node.ofShape, hobject, hw]
    rfl
  rw [Access.spellsName] at hname
  obtain ⟨collection, hc, rfl⟩ | ⟨hheader, rfl⟩ | ⟨-, rfl⟩ := Access.expression?_cases he
  · rw [hc] at hname
    have hcoll : isPlainWord (collection : String) = true := by
      obtain ⟨p, hp, rfl⟩ := Option.map_eq_some_iff.1 hc
      have hall : (requestCollections.all fun p => isPlainWord (p.2 : String)) = true := by decide
      exact List.all_eq_true.1 hall p (List.mem_of_find?_eq_some hp)
    refine ⟨?_, rfl, rfl⟩
    rw [Node.ofShape, plainExpression, hmember hcoll]
    cases hi : isIdentifier a.name with
    | false =>
      rw [isWritable_quote hname]
      rfl
    | true =>
      rw [isPlainWord_of_identifier hi hname]
      rfl
  · have hquote : isWritable (quote a.name) = true := by
      rw [hheader] at hname
      exact hname
    refine ⟨?_, rfl, rfl⟩
    rw [Node.ofShape, plainExpression, hmember (by decide)]
    change (true && (isWritable (quote a.name) && true)) = true
    rw [hquote]
    rfl
  · exact ⟨hmember (by decide), rfl, rfl⟩

theorem access_plain {a : Access} {e : Node} (ha : a.isPlain = true) (he : a.expression? = some e) :
    plainExpression e = true ∧ e.isOperand = true ∧ accessRank e = 0 := by
  simp only [Access.isPlain, Bool.and_eq_true] at ha
  exact expression_plain ha.1.1 (Access.spellsName_of_isPlainKey ha.1.2) he

section

variable {g : Grammar} {N L : Nat} {p : Progress} {before : List Concrete} {c : Cursor} {cs r : List Char}

theorem follows_sign {ch : Char} {s : List Char} (hch : ch ∈ followers) (hs : signAt (ch :: s) = String.singleton ch) :
    Follows (ch :: s) := ⟨ch, hch, [], s, rfl, .inl rfl, hs⟩

theorem follows_point {ps r : List Char} (h : isWord ps = true) : Follows ('.' :: ps ++ r) := by
  obtain ⟨ch, ds, rfl, hch, -⟩ := isWord_iff.1 h
  refine follows_sign (by decide) (signAt_point ?_)
  rintro rfl
  cases hch

theorem Operand.access {l : Layout} {a : Access} {e : Node} (ha : a.expression? = some e)
    (h : Operand g L p before c e cs) : Operand g L p before c ⟨l, .access a⟩ cs := by
  obtain ⟨first, q, cov, t, hfirst, hsuffixes, hstands, ⟨hspan, hvalue, -, s, hread, hsame, htext⟩, -⟩ := h
  obtain ⟨m, s'⟩ := e
  exact ⟨first, q, cov, t, hfirst, hsuffixes, hstands, ⟨hspan, hvalue, nofun, s, hread, .access ha hsame, htext⟩, nofun⟩

theorem operand_reads_of (hg : g.ReadsExpressions N) (ha : Ahead p before c) : ∀ (k : Nat) {n : Node} {cs r : List Char},
    2 * cs.length + accessRank n < k → n.isOperand = true → plainExpression n = true →
    expressionText L n = .ok (Text.ofChars cs) → cs.length ≤ N → c.rest = cs ++ r → Follows r →
    Operand g L p before c n cs
  | 0, _, _, _, hk, _, _, _, _, _, _ => nomatch hk
  | k + 1, ⟨l, s⟩, cs, r, hk, hop, hn, ht, hN, hc, hr => by
    cases s with
    | identifier x =>
      rw [expressionText] at ht
      obtain rfl := Except.ok.inj ht
      exact operand_name ha hc hn hr
    | literal v raw =>
      have hcs := literalText_eq.symm.trans ht
      cases literalToken_of_plain hn hcs with
      | number hv => cases v <;> first | exact absurd hop Bool.false_ne_true | exact absurd hv Bool.false_ne_true
      | text hlen hval => exact operand_string ha hc hcs hlen hval
      | _ => cases hop
    | member o x computed =>
      rw [plainExpression] at hn
      simp only [Bool.and_eq_true] at hn
      obtain ⟨⟨⟨hoo, hbare⟩, ho⟩, hx⟩ := hn
      obtain ⟨os, hos, ⟨rfl, is, his, rfl⟩ | ⟨rfl, ps, rfl, rfl⟩⟩ := memberChars_ok ht
      · rw [List.append_assoc] at hc
        simp only [List.length_append, List.length_cons] at hN hk
        have hfollow : Follows ('[' :: is ++ [']'] ++ r) := follows_sign (by decide) rfl
        have hoperand := operand_reads_of hg ha k (by have := accessRank_le o; omega) hoo ho hos (by omega) hc hfollow
        exact hoperand.subscript (r := r) hg hbare his (by omega) (by rw [hc]; simp)
      · have hps : isWord ps = true := by
          rwa [Bool.false_and, Bool.false_or, isPlainWord, Text.toChars?_ofChars, Option.any_some] at hx
        rw [List.append_assoc] at hc
        simp only [List.length_append, List.length_cons] at hN hk
        have hoperand := operand_reads_of hg ha k (by have := accessRank_le o; omega) hoo ho hos (by omega) hc
          (follows_point hps)
        exact hoperand.member hbare hc hps hr
    | call f as =>
      rw [plainExpression] at hn
      simp only [Bool.and_eq_true] at hn
      obtain ⟨⟨⟨hof, hbare⟩, hf⟩, has⟩ := hn
      obtain ⟨fs, ws, hfs, hws, rfl⟩ := callChars_ok ht
      obtain ⟨xs, rfl, rfl, hxs⟩ := forall₂_pairs hws
      rw [List.append_assoc] at hc
      simp only [List.length_append, List.length_cons] at hN hk
      have hfollow : Follows ('(' :: (joinChars (xs.map Prod.snd) ++ [')']) ++ r) := follows_sign (by decide) rfl
      have hoperand := operand_reads_of hg ha k (by have := accessRank_le f; omega) hof hf hfs (by omega) hc hfollow
      refine hoperand.call hg hbare (fun x hx => ?_) (by omega) hc
      exact ⟨plainArguments_mem has _ (List.mem_map_of_mem hx), hxs x hx⟩
    | access a =>
      obtain ⟨e, he, hte⟩ := accessText_ok ht
      obtain ⟨hplain, hop, hrank⟩ := access_plain hn he
      rw [accessRank] at hk
      exact .access he (operand_reads_of hg ha k (by omega) hop hplain hte hN hc hr)
    | _ => cases hop

/-- **A plain operand is read back.** -/
theorem operand_reads (hg : g.ReadsExpressions N) {n : Node} (hop : n.isOperand = true)
    (hn : plainExpression n = true) (ht : expressionText L n = .ok (Text.ofChars cs)) (hN : cs.length ≤ N)
    (ha : Ahead p before c) (hc : c.rest = cs ++ r) (hr : Follows r) : Operand g L p before c n cs :=
  operand_reads_of hg ha _ (Nat.lt_succ_self _) hop hn ht hN hc hr

end

end ApiRoutes.Script
