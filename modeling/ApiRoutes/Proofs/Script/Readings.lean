import ApiRoutes.Proofs.Printing
import ApiRoutes.Proofs.Script.Comments
/-!
# Parts of what is read

What a reading takes apart has its comments in the parts that it looks into (`comments_of_faithful`),
and a literal or a block survives when each of its entries does (`literal_survives`,
`block_survives`): it prints, and has the comments of its source.
-/
namespace ApiRoutes.Script

open Concrete (commentsOf commentsOf_append areFaithful areFaithful_iff childrenIn readParts)

/-! ## Parts of trees -/

variable {t u : Concrete} {ts us : List Concrete} {kind : Kind} {role : Role} {role? : Option Role} {span : Span}

theorem childIn_ok {children : List Concrete} (h : childIn role children = .ok t) : childIn? role children = some t := by
  unfold childIn at h
  split at h <;> cases h
  assumption

theorem childIn?_cons (role : Role) (t : Concrete) (ts : List Concrete) :
    childIn? role (t :: ts) = if t.role == some role then some t else childIn? role ts := by
  unfold childIn?
  rw [List.find?_cons]
  cases t.role == some role <;> rfl

theorem childIn_mem (h : childIn? role ts = some t) : t ∈ ts := List.mem_of_find?_eq_some h

theorem childIn_role (h : childIn? role ts = some t) : t.role = some role := by
  simpa using List.find?_some h

theorem childIn_faithful (h : childIn? role ts = some t) (hts : areFaithful ts = true) : t.isFaithful = true :=
  areFaithful_iff.1 hts t (childIn_mem h)

theorem childrenIn_cons {r : Role} {rs : List Role} (h : childIn? r ts = some t) :
    childrenIn ts (r :: rs) = t :: childrenIn ts rs := by
  simp [childrenIn, h]

theorem childrenIn_none {r : Role} {rs : List Role} (h : childIn? r ts = none) : childrenIn ts (r :: rs) = childrenIn ts rs := by
  simp [childrenIn, h]

theorem childrenIn_nil : childrenIn ts [] = [] := rfl

/-- What is not kept as a whole has its comments in the parts that are read. -/
theorem comments_of_faithful (h : (Concrete.node kind role? span ts).isFaithful = true) (hwhole : Concrete.isWhole kind role? = false)
    (hkind : kind ≠ .comment) :
    commentsOf [.node kind role? span ts] = commentsOf (readParts kind ts) ∧ areFaithful ts = true := by
  simp only [Concrete.isFaithful, hwhole, Bool.false_or, Bool.and_eq_true, decide_eq_true_eq] at h
  exact ⟨by simp [commentsOf, Concrete.comments, hkind, h.1], h.2⟩

theorem children_faithful (h : t.isFaithful = true) {r : Role} (hr : r ∈ [Role.parameters, .arguments, .body])
    (hrole : t.role = some r) : areFaithful t.children = true := by
  obtain ⟨kind, role, span, children⟩ := t
  cases hrole
  have hwhole : Concrete.isWhole kind (some r) = false := by
    simp only [Concrete.isWhole, Bool.and_eq_false_imp, List.all_eq_false]
    exact fun _ => ⟨r, hr, by simp⟩
  simp only [Concrete.isFaithful, hwhole, Bool.false_or, Bool.and_eq_true] at h
  exact h.2

theorem token_comments (h : t.isFaithful = true) (hnamed : t.isNamed = false) : t.comments = [] := by
  obtain ⟨kind, role, span, children⟩ := t
  cases kind with
  | token s =>
    have := (comments_of_faithful h rfl (by simp)).1
    simpa [commentsOf, readParts] using this
  | _ => cases hnamed

/-- Named trees as they are spelled. -/
theorem named_carries (h : areFaithful ts = true) :
    Carries ts ((ts.filter Concrete.isNamed).map fun t => .kept t.text) := by
  induction ts with
  | nil => exact .nil
  | cons t ts ih =>
    obtain ⟨ht, hts⟩ := Bool.and_eq_true_iff.1 h
    by_cases hnamed : t.isNamed
    · rw [List.filter_cons_of_pos hnamed]
      exact (Carries.kept t).append (ih hts)
    · rw [List.filter_cons_of_neg hnamed]
      have ht : Carries [t] [] := .none (by simp [commentsOf, token_comments ht (by simpa using hnamed)]) rfl
      exact ht.append (ih hts)

/-! ## Printing -/

/-- At each nesting level there is a text. -/
def Prints {α β : Type} (text : Nat → α → Outcome β) (a : α) : Prop := ∀ L, ∃ u, text L a = .ok u

theorem ok_bind {ε α β : Type} (a : α) (f : α → Except ε β) : (.ok a >>= f) = f a := rfl

/-- An entry of a literal is a comment, or has a text. -/
def EntryPrints (text : Nat → Node → Outcome Text) (n : Node) : Prop := n.isComment = true ∨ Prints text n

theorem literalBlocks_prints {text : Nat → Node → Outcome Text} {L : Nat} : ∀ {ns : List Node},
    (∀ n ∈ ns, EntryPrints text n) → ∃ bs, literalBlocks L (text (L + 1)) ns = .ok bs
  | [], _ => ⟨[], rfl⟩
  | n :: ns, h => by
    obtain ⟨bs, hbs⟩ := literalBlocks_prints (L := L) fun m hm => h m (List.mem_cons_of_mem _ hm)
    obtain ⟨t, ht⟩ : ∃ t, rowText (text (L + 1)) n = .ok t := by
      obtain hn | hn := h n List.mem_cons_self
      · exact ⟨[], by rw [rowText, if_pos hn]⟩
      · by_cases hc : n.isComment
        · exact ⟨[], by rw [rowText, if_pos hc]⟩
        · rw [rowText, if_neg hc]
          exact hn (L + 1)
    exact ⟨_, by rw [literalBlocks, ht, ok_bind, hbs]; rfl⟩

theorem literal_prints {text : Nat → Node → Outcome Text} {L : Nat} {opening closing pad : Text} {inline : Bool} {ns : List Node}
    (h : ∀ n ∈ ns, EntryPrints text n) : ∃ u, literalForm opening closing pad L (inline && !ns.any needsOwnLine)
      (ns.mapM (text L)) (literalBlocks L (text (L + 1)) ns) = .ok u := by
  obtain ⟨bs, hbs⟩ := literalBlocks_prints (L := L) h
  unfold literalForm
  cases hfits : inline && !ns.any needsOwnLine with
  | false => exact ⟨_, by rw [hbs]; rfl⟩
  | true =>
    simp only [Bool.and_eq_true, Bool.not_eq_true', List.any_eq_false] at hfits
    obtain ⟨ts, hts⟩ : ∃ ts, ns.mapM (text L) = .ok ts := by
      refine exists_mapM_ok.2 fun n hn => ?_
      obtain hc | hp := h n hn
      · obtain ⟨l, s⟩ := n
        have := hfits.2 _ hn
        cases s <;> simp_all [Node.isComment, needsOwnLine, Node.shape]
      · exact hp L
    rw [hts, hbs, if_pos rfl]
    simp only [bind, Except.bind, pure, Except.pure]
    split
    · exact ⟨_, rfl⟩
    · exact ⟨_, rfl⟩

theorem object_prints {ps : List Node} {l : Layout} {inline : Bool} (h : ∀ n ∈ ps, EntryPrints entryText n) :
    Prints expressionText ⟨l, .object ps inline⟩ := by
  intro L
  by_cases hps : ps = []
  · exact ⟨_, by subst hps; rfl⟩
  · rw [objectText_eq hps, entryTexts_eq, entryBlocks_eq]
    exact literal_prints h

theorem array_prints {es : List Node} {l : Layout} {inline : Bool} (h : ∀ n ∈ es, EntryPrints expressionText n) :
    Prints expressionText ⟨l, .array es inline⟩ := by
  intro L
  by_cases hes : es = []
  · exact ⟨_, by subst hes; rfl⟩
  · rw [arrayText_eq hes, expressionTexts_eq, elementBlocks_eq]
    exact literal_prints h

theorem block_prints : ∀ {ns : List Node}, (∀ n ∈ ns, Prints statementText n) → ∀ L previous, ∃ ls, blockLines L previous ns = .ok ls
  | [], _, _, _ => ⟨[], rfl⟩
  | n :: ns, h, L, previous => by
    obtain ⟨t, ht⟩ := h n List.mem_cons_self L
    obtain ⟨ls, hls⟩ := block_prints (fun m hm => h m (List.mem_cons_of_mem _ hm)) L (some n)
    exact ⟨_, by rw [blockLines, ht, ok_bind, hls]; rfl⟩

/-! ## Survival -/

theorem expressionText_layout (l : Layout) (n : Node) : ∀ L, expressionText L (n.withLayout l) = expressionText L n := by
  obtain ⟨l', s⟩ := n
  intro L
  cases s <;> rfl

theorem entryText_layout (l : Layout) (n : Node) : ∀ L, entryText L (n.withLayout l) = entryText L n := by
  obtain ⟨l', s⟩ := n
  intro L
  cases s with
  | property k v b => cases b <;> rfl
  | _ => rfl

/-- What is read from trees prints, and has their comments. -/
structure Survives (text : Nat → Node → Outcome Text) (words : Node → List Word) (ts : List Concrete) (n : Node) : Prop where
  entry : n.isEntry = true
  prints : Prints text n
  carries : areFaithful ts = true → Carries ts (words n)

/-- The same of many, one after the other. -/
structure AllSurvive (text : Nat → Node → Outcome Text) (words : Node → List Word) (ts : List Concrete) (ns : List Node) :
    Prop where
  prints : ∀ n ∈ ns, Prints text n
  carries : areFaithful ts = true → Carries ts (ns.flatMap words)

theorem orKeep_ok {r : Reading Shape} {n : Node} (h : orKeep t r = .ok n) :
    n = keep t ∨ ∃ s, r = .ok s ∧ n = .ofShape s := by
  unfold orKeep at h
  split at h
  · cases h
    exact .inr ⟨_, rfl, rfl⟩
  · cases h
    exact .inl rfl
  · cases h

namespace Survives

variable {text : Nat → Node → Outcome Text} {words : Node → List Word} {n : Node} {s : Shape}

theorem keep_expression (t : Concrete) : Survives expressionText expressionWords [t] (keep t) :=
  ⟨rfl, fun _ => ⟨_, rfl⟩, fun _ => .kept t⟩

theorem keep_entry (t : Concrete) : Survives entryText entryPart [t] (keep t) :=
  ⟨rfl, fun _ => ⟨_, rfl⟩, fun _ => .kept t⟩

theorem keep_statement (t : Concrete) : Survives statementText statementWords [t] (keep t) :=
  ⟨rfl, fun _ => ⟨_, rfl⟩, fun _ => .kept t⟩

/-- A construct is taken apart. -/
theorem node (hentry : n.isEntry = true) (hwhole : Concrete.isWhole kind role? = false) (hkind : kind ≠ .comment)
    (hprints : Prints text n) (hcarries : areFaithful ts = true → Carries (readParts kind ts) (words n)) :
    Survives text words [.node kind role? span ts] n where
  entry := hentry
  prints := hprints
  carries h := by
    obtain ⟨hparts, hts⟩ := comments_of_faithful (Bool.and_eq_true_iff.1 h).1 hwhole hkind
    exact .congr hparts rfl (hcarries hts)

/-- Nothing in the construct can hold a comment. -/
theorem leaf (hentry : n.isEntry = true) (hwhole : Concrete.isWhole kind role? = false) (hkind : kind ≠ .comment)
    (hprints : Prints text n) (hparts : readParts kind ts = []) (hwords : remarks (words n) = []) :
    Survives text words [.node kind role? span ts] n :=
  node hentry hwhole hkind hprints fun _ => hparts ▸ .none rfl hwords

end Survives

theorem areFaithful_single (h : t.isFaithful = true) : areFaithful [t] = true := by
  simp [areFaithful, h]

theorem Carries.of_childIn {ws : List Word} (h : childIn? role ts = some t) (hts : areFaithful ts = true)
    (hcarries : areFaithful [t] = true → Carries [t] ws) : Carries [t] ws :=
  hcarries (areFaithful_single (childIn_faithful h hts))

@[simp] theorem remarks_nil : remarks [] = [] := rfl

/-- The words of an entry of a literal, without its comma. -/
def literalPart (part : Node → List Word) (n : Node) : List Word :=
  match n.shape with
  | .comment c => [.comment c]
  | _ => part n

theorem literalPart_of_entry {part : Node → List Word} {n : Node} (h : n.isEntry = true) : literalPart part n = part n := by
  obtain ⟨l, s⟩ := n
  cases s <;> first | rfl | cases h

theorem remarks_literalWords {part : Node → List Word} : ∀ ns : List Node,
    remarks (literalWords part ns) = remarks (ns.flatMap fun n => n.layout.words (literalPart part n))
  | [] => rfl
  | n :: rest => by
    have hcomma : remarks (commaBefore rest) = [] := by
      unfold commaBefore
      split <;> rfl
    rw [literalWords, List.flatMap_cons, remarks_append, remarks_append, remarks_literalWords rest]
    congr 1
    unfold literalPart
    generalize n.shape = shape
    cases shape with
    | comment c => rfl
    | _ => simp [Layout.words, remarks_append, hcomma]

theorem wordsOfNodes_literalPart {part : Node → List Word} (h : ∀ l n, part (n.withLayout l) = part n) :
    WordsOfNodes (literalPart part) where
  comment _ _ := rfl
  layout l n := by
    unfold literalPart
    rw [Node.shape_withLayout, h]

theorem expressionWords_layout (l : Layout) (n : Node) : expressionWords (n.withLayout l) = expressionWords n := by
  obtain ⟨l', s⟩ := n
  cases s <;> rfl

theorem entryPart_layout (l : Layout) (n : Node) : entryPart (n.withLayout l) = entryPart n := by
  obtain ⟨l', s⟩ := n
  cases s with
  | property k v b => cases b <;> rfl
  | _ => rfl

theorem wordsOfNodes_statementWords : WordsOfNodes statementWords where
  comment _ _ := rfl
  layout l n := by
    obtain ⟨l', s⟩ := n
    cases s with
    | returns e => cases e <;> rfl
    | _ => rfl

theorem blockWords_eq : ∀ ns : List Node, blockWords ns = ns.flatMap fun n => n.layout.words (statementWords n)
  | [] => rfl
  | n :: rest => by rw [blockWords, List.flatMap_cons, blockWords_eq rest]

/-- A literal is read entry by entry. -/
theorem literal_survives {text : Nat → Node → Outcome Text} {part : Node → List Word}
    (hlayout : ∀ l n, part (n.withLayout l) = part n) (htext : ∀ l n L, text L (n.withLayout l) = text L n)
    {read : Concrete → Reading Node} (hread : ∀ t ∈ ts, ∀ n, read t = .ok n → Survives text part [t] n) {ns : List Node}
    (h : sequence (siblings read ts) = .ok ns) :
    (∀ n ∈ ns, EntryPrints text n) ∧ (areFaithful ts = true → Carries ts (literalWords part ns)) := by
  refine ⟨fun n hn => ?_, fun hts => ?_⟩
  · obtain ⟨l, c, rfl⟩ | ⟨t, ht, m, l, hm, rfl⟩ := sequence_nodes h n hn
    · exact .inl rfl
    · refine .inr fun L => ?_
      rw [htext]
      exact (hread t ht m hm).prints L
  · refine .congr rfl (remarks_literalWords ns) (sequence_carries (wordsOfNodes_literalPart hlayout) (fun t ht n hn => ?_)
      (fun t ht => token_comments (areFaithful_iff.1 hts t ht)) h)
    have hsurvives := hread t ht n hn
    rw [literalPart_of_entry hsurvives.entry]
    exact hsurvives.carries (areFaithful_single (areFaithful_iff.1 hts t ht))

/-- A block is read statement by statement. -/
theorem block_survives (hread : ∀ t ∈ ts, ∀ n, readStatement t = .ok n → Survives statementText statementWords [t] n)
    {ns : List Node} (h : sequence (readStatements ts) = .ok ns) :
    (∀ L previous, ∃ ls, blockLines L previous ns = .ok ls) ∧ (areFaithful ts = true → Carries ts (blockWords ns)) := by
  rw [readStatements_eq] at h
  refine ⟨block_prints fun n hn => ?_, fun hts => ?_⟩
  · obtain ⟨l, c, rfl⟩ | ⟨t, ht, m, l, hm, rfl⟩ := sequence_nodes h n hn
    · exact fun L => ⟨_, rfl⟩
    · intro L
      obtain ⟨u, hu⟩ := (hread t ht m hm).prints L
      obtain ⟨l', s⟩ := m
      exact ⟨u, (statementText_layout l l' s).trans hu⟩
  · rw [blockWords_eq]
    exact sequence_carries wordsOfNodes_statementWords
      (fun t ht n hn => (hread t ht n hn).carries (areFaithful_single (areFaithful_iff.1 hts t ht)))
      (fun t ht => token_comments (areFaithful_iff.1 hts t ht)) h

end ApiRoutes.Script
