import ApiRoutes.Script.Reader
import ApiRoutes.Proofs.Script.Groups
import ApiRoutes.Proofs.Script.Words
/-!
# Comments are kept

What is read from a source carries its comments: each is a comment of the script tree, or stands
within source text that is kept (`parse_keeps_comments`).  The reading takes some constructs apart
without a look at their comments; `Concrete.isFaithful` says that there are none.
-/
namespace ApiRoutes.Script

/-! ## Comments of sources -/

namespace Concrete

mutual

/-- All comments in a tree, in the order of the source. -/
def comments : Concrete → List Comment
  | .node kind role span children =>
    if kind = .comment then [(commentOf (.node kind role span children)).comment] else commentsOf children

def commentsOf : List Concrete → List Comment
  | [] => []
  | t :: rest => t.comments ++ commentsOf rest

end

def childrenIn (children : List Concrete) (roles : List Role) : List Concrete :=
  roles.flatMap fun r => (childIn? r children).toList

/-- The parts of a tree that a reading of it looks into. -/
def readParts (kind : Kind) (children : List Concrete) : List Concrete :=
  match kind with
  | .token _ | .identifier | .string | .number | .truth _ | .null | .shorthand => []
  | .member | .subscript => childrenIn children [.object]
  | .call => childrenIn children [.callee] ++ (childrenIn children [.arguments]).flatMap Concrete.children
  | .assignment => childrenIn children [.left, .right]
  | .pair => childrenIn children [.value]
  | .declarator => childrenIn children [.name, .value]
  | .functionDeclaration | .functionExpression =>
    childrenIn children [.name] ++ (childrenIn children [.parameters, .body]).flatMap Concrete.children
  | .exportStatement => ((childIn? .declaration children).or (childIn? .value children)).toList
  | .importStatement => (children.filter (·.kind == .importClause)).flatMap Concrete.children
  | _ => children

/-- Has a tree no counterpart, so that all of its text is kept? -/
def isWhole (kind : Kind) (role : Option Role) : Bool :=
  (kind == .other || kind == .template) && [Role.parameters, .arguments, .body].all (role != some ·)

mutual

/-- Are all comments in text that is kept, or in the parts that a reading looks into? -/
def isFaithful : Concrete → Bool
  | .node kind role _ children =>
    isWhole kind role || (decide (commentsOf children = commentsOf (readParts kind children)) && areFaithful children)

def areFaithful : List Concrete → Bool
  | [] => true
  | t :: rest => t.isFaithful && areFaithful rest

end

theorem commentsOf_append (ts us : List Concrete) : commentsOf (ts ++ us) = commentsOf ts ++ commentsOf us := by
  induction ts with
  | nil => rfl
  | cons t ts ih => simp [commentsOf, ih]

theorem areFaithful_iff {ts : List Concrete} : areFaithful ts = true ↔ ∀ t ∈ ts, t.isFaithful = true := by
  induction ts with
  | nil => simp [areFaithful]
  | cons t ts ih => simp [areFaithful, ih]

end Concrete

open Concrete (commentsOf commentsOf_append)

/-! ## Comments in words -/

/-- Where a comment can be: a comment, or text that is kept. -/
def Word.remark? : Word → Option (Comment ⊕ Text)
  | .comment c => some (.inl c)
  | .kept t => some (.inr t)
  | .token _ => none

def remarks (ws : List Word) : List (Comment ⊕ Text) := ws.filterMap Word.remark?

theorem remarks_append (ws vs : List Word) : remarks (ws ++ vs) = remarks ws ++ remarks vs := List.filterMap_append

@[simp] theorem remarks_sign (s : String) (ws : List Word) : remarks (.sign s :: ws) = remarks ws := rfl

@[simp] theorem remarks_token (t : Text) (ws : List Word) : remarks (.token t :: ws) = remarks ws := rfl

theorem remarks_commaWords : ∀ wss : List (List Word), remarks (commaWords wss) = wss.flatMap remarks
  | [] => rfl
  | [ws] => by simp [commaWords]
  | ws :: vs :: rest => by
    rw [commaWords, remarks_append, remarks_sign, remarks_commaWords (vs :: rest)]
    simp

/-- The comments of a part of a source: a comment, or a tree whose text is kept. -/
def partComments : Comment ⊕ Concrete → List Comment
  | .inl c => [c]
  | .inr t => t.comments

/-- The words have all comments of the trees, in their order. -/
def Carries (ts : List Concrete) (ws : List Word) : Prop :=
  ∃ parts : List (Comment ⊕ Concrete), remarks ws = parts.map (Sum.map id Concrete.text) ∧
    commentsOf ts = parts.flatMap partComments

namespace Carries

variable {ts us : List Concrete} {ws vs : List Word} {t : Concrete}

theorem nil : Carries [] [] := ⟨[], rfl, rfl⟩

theorem append (h : Carries ts ws) (h' : Carries us vs) : Carries (ts ++ us) (ws ++ vs) := by
  obtain ⟨ps, hps, hts⟩ := h
  obtain ⟨qs, hqs, hus⟩ := h'
  exact ⟨ps ++ qs, by simp [remarks_append, hps, hqs], by simp [commentsOf_append, hts, hus]⟩

theorem kept (t : Concrete) : Carries [t] [.kept t.text] := ⟨[.inr t], rfl, by simp [commentsOf, partComments]⟩

theorem comment (h : t.isComment = true) : Carries [t] [.comment (commentOf t).comment] := by
  refine ⟨[.inl (commentOf t).comment], rfl, ?_⟩
  obtain ⟨kind, role, span, children⟩ := t
  have hkind : kind = .comment := by simpa [Concrete.isComment, Concrete.kind] using h
  simp [commentsOf, Concrete.comments, partComments, hkind]

/-- Only the comments count, and the words that can hold them. -/
theorem congr (hts : commentsOf ts = commentsOf us) (hws : remarks ws = remarks vs) (h : Carries us vs) : Carries ts ws := by
  obtain ⟨ps, hps, hus⟩ := h
  exact ⟨ps, hws.trans hps, hts.trans hus⟩

theorem none (hts : commentsOf ts = []) (hws : remarks ws = []) : Carries ts ws := ⟨[], hws, hts⟩

end Carries

/-! ## Siblings -/

section

variable {words : Node → List Word}

/-- The words of one of the siblings. -/
def contentWords (words : Node → List Word) : PlacedComment ⊕ Reading Node → List Word
  | .inl c => [.comment c.comment]
  | .inr (.ok n) => words n
  | .inr (.error _) => []

/-- A comment is its word, and a layout changes nothing. -/
structure WordsOfNodes (words : Node → List Word) : Prop where
  comment : ∀ l c, words ⟨l, .comment c⟩ = [.comment c]
  layout : ∀ l n, words (n.withLayout l) = words n

/-- The words of what a group gives are those of its siblings. -/
theorem group_words (hw : WordsOfNodes words) {g : Group (Reading Node)} {node : Node}
    (h : g.main = .inr (.ok node) ∨ ∃ c, g.main = .inl c ∧ node = .ofShape (.comment c.comment)) :
    (node.withLayout g.layout).layout.words (words (node.withLayout g.layout)) =
      g.flatten.flatMap (contentWords words) := by
  have hcomments : ∀ cs : List PlacedComment, (cs.map Sum.inl).flatMap (contentWords words) =
      (cs.map (·.comment)).map Word.comment := fun cs => by
    induction cs with
    | nil => rfl
    | cons c cs ih => simp [contentWords, ih]
  obtain ⟨leading, main, trailing, blank⟩ := g
  obtain rfl | ⟨c, rfl, rfl⟩ := h
  · cases trailing <;>
      simp [Group.flatten, Group.layout, Layout.words, contentWords, hcomments, hw.layout, Node.layout_withLayout]
  · cases trailing <;>
      simp [Group.flatten, Group.layout, Layout.words, contentWords, hcomments, hw.layout, hw.comment, Node.ofShape,
        Node.layout_withLayout]

theorem sequence_ok {ss : List (Sibling (Reading Node))} {ns : List Node} (h : sequence ss = .ok ns) :
    List.Forall₂ (fun (g : Group (Reading Node)) n => ∃ node, n = node.withLayout g.layout ∧
      (g.main = .inr (.ok node) ∨ ∃ c, g.main = .inl c ∧ node = .ofShape (.comment c.comment))) (groups ss) ns := by
  refine (mapM_eq_ok.1 h).imp fun g n hg => ?_
  cases hmain : g.main with
  | inl c =>
    rw [hmain] at hg
    cases hg
    exact ⟨_, rfl, .inr ⟨c, rfl, rfl⟩⟩
  | inr r =>
    rw [hmain] at hg
    obtain ⟨node, rfl, hn⟩ := bind_eq_ok.1 hg
    cases hn
    exact ⟨node, rfl, .inl rfl⟩

theorem sequence_words (hw : WordsOfNodes words) {ss : List (Sibling (Reading Node))} {ns : List Node}
    (h : sequence ss = .ok ns) :
    (ns.flatMap fun n => n.layout.words (words n)) = (ss.map Sibling.content).flatMap (contentWords words) := by
  rw [← groups_flatten]
  have hall := sequence_ok h
  generalize groups ss = gs at hall
  clear h
  induction hall with
  | nil => rfl
  | @cons g n gs ns hg _ ih =>
    obtain ⟨node, rfl, hmain⟩ := hg
    rw [List.flatMap_cons, List.flatMap_cons, List.flatMap_append, ih, group_words hw hmain]

/-- Where a sequence is read, each of the siblings is. -/
theorem sequence_readable {ss : List (Sibling (Reading Node))} {ns : List Node} (h : sequence ss = .ok ns)
    {r : Reading Node} (hr : .inr r ∈ ss.map Sibling.content) : ∃ n, r = .ok n := by
  rw [← groups_flatten] at hr
  have hall := sequence_ok h
  generalize groups ss = gs at hall hr
  clear h
  induction hall with
  | nil => cases hr
  | @cons g n gs ns hg _ ih =>
    obtain ⟨node, rfl, hmain⟩ := hg
    obtain hr | hr := List.mem_append.1 (List.flatMap_cons ▸ hr)
    · obtain hmain | ⟨c, hmain, -⟩ := hmain
      · exact ⟨node, by simpa [Group.flatten, hmain] using hr⟩
      · simp [Group.flatten, hmain] at hr
    · exact ih hr

/-- Each node of a sequence is a comment, or what one of the trees reads as. -/
theorem sequence_nodes {read : Concrete → Reading Node} {ts : List Concrete} {ns : List Node}
    (h : sequence (siblings read ts) = .ok ns) :
    ∀ n ∈ ns, (∃ l c, n = ⟨l, .comment c⟩) ∨ ∃ t ∈ ts, ∃ m l, read t = .ok m ∧ n = m.withLayout l := by
  intro n hn
  obtain ⟨g, hg, node, rfl, hmain⟩ := exists_of_forall₂ (sequence_ok h) hn
  obtain hmain | ⟨c, -, rfl⟩ := hmain
  · right
    have hmem : .inr (.ok node) ∈ (siblings read ts).map Sibling.content := by
      rw [← groups_flatten]
      exact List.mem_flatMap.2 ⟨g, hg, by simp [Group.flatten, hmain]⟩
    obtain ⟨s, hs, hnode⟩ := List.mem_map.1 hmem
    obtain ⟨t, ht, hs⟩ := List.mem_flatMap.1 hs
    refine ⟨t, ht, node, g.layout, ?_, rfl⟩
    unfold siblingOf at hs
    split at hs
    · cases List.mem_singleton.1 hs
      cases hnode
    · split at hs
      · cases List.mem_singleton.1 hs
        exact Sum.inr.inj hnode
      · cases hs
  · exact .inl ⟨_, _, rfl⟩

/-- **A sequence of siblings carries their comments.** -/
theorem sequence_carries (hw : WordsOfNodes words) {read : Concrete → Reading Node} {ts : List Concrete} {ns : List Node}
    (hread : ∀ t ∈ ts, ∀ n, read t = .ok n → Carries [t] (words n))
    (htokens : ∀ t ∈ ts, t.isNamed = false → t.comments = [])
    (h : sequence (siblings read ts) = .ok ns) :
    Carries ts (ns.flatMap fun n => n.layout.words (words n)) := by
  rw [sequence_words hw h]
  have hok : ∀ r, .inr r ∈ (siblings read ts).map Sibling.content → ∃ n, r = .ok n := fun r hr => sequence_readable h hr
  clear h
  unfold siblings at hok ⊢
  induction ts with
  | nil => exact .nil
  | cons t ts ih =>
    simp only [List.flatMap_cons, List.map_append, List.flatMap_append]
    refine @Carries.append [t] ts _ _ ?_ (ih (fun t ht => hread t (List.mem_cons_of_mem _ ht))
      (fun t ht => htokens t (List.mem_cons_of_mem _ ht)) fun r hr => hok r ?_)
    · unfold siblingOf at hok ⊢
      split
      · rename_i hcomment
        exact .comment hcomment
      · split
        · rename_i hcomment hnamed
          obtain ⟨n, hn⟩ := hok (read t) (by simp [hcomment, hnamed, Sibling.content])
          have := hread t List.mem_cons_self n hn
          simpa [Sibling.content, contentWords, hn] using this
        · rename_i hcomment hnamed
          exact .none (by simp [commentsOf, htokens t List.mem_cons_self (by simpa using hnamed)]) rfl
    · simp only [List.flatMap_cons, List.map_append, List.mem_append]
      exact .inr hr

end

end ApiRoutes.Script
