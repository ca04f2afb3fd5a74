import Mathlib.Logic.Relation
import ApiRoutes.Proofs.FirstMatch
import ApiRoutes.Proofs.Script.PlainAgain
/-!
# Adding statements

Statements are added at the end of a function (`extend`) and below the first statement of a module
(`insertBelowFirst`).  A plain module stays plain, and adding to what a module is read back as adds to the module
(`Node.Rereads`).
-/
namespace ApiRoutes.Script

variable {n n' : Node} {ns ns' xs ys : List Node} {l m : Layout} {s s' : Shape}

/-! ## What is added -/

/-- A function with more statements at its end. -/
def extend (added : List Node) (n : Node) : Node :=
  match n.shape with
  | .function f => n.withShape (.function { f with body := f.body ++ added })
  | _ => n

/-- The statements of a function. -/
def bodyOf (n : Node) : List Node :=
  match n.shape with
  | .function f => f.body
  | _ => []

/-- Statements with others below the first of them that is no comment. -/
def insertBelowFirst (added : List Node) : List Node → List Node
  | [] => added
  | n :: ns => if n.isComment then n :: insertBelowFirst added ns else n :: (added ++ ns)

theorem layout_extend (added : List Node) (n : Node) : (extend added n).layout = n.layout := by
  obtain ⟨l, s⟩ := n
  cases s <;> rfl

theorem head_extend (added : List Node) (n : Node) : (extend added n).shape.head = n.shape.head := by
  obtain ⟨l, s⟩ := n
  cases s <;> rfl

theorem extend_extend (xs ys : List Node) (n : Node) : extend ys (extend xs n) = extend (xs ++ ys) n := by
  obtain ⟨l, s⟩ := n
  cases s with
  | function f => exact congrArg (fun body => Node.mk l (.function { f with body })) (List.append_assoc ..)
  | _ => rfl

theorem insertBelowFirst_append (h : ns.any (!·.isComment) = true) :
    insertBelowFirst xs (insertBelowFirst ys ns) = insertBelowFirst (xs ++ ys) ns := by
  induction ns with
  | nil => cases h
  | cons n ns ih =>
    by_cases hn : n.isComment = true
    · rw [List.any_cons, hn] at h
      rw [insertBelowFirst, insertBelowFirst, if_pos hn, if_pos hn, insertBelowFirst, if_pos hn, ih h]
    · rw [insertBelowFirst, insertBelowFirst, if_neg hn, if_neg hn, insertBelowFirst, if_neg hn, List.append_assoc]

theorem any_insertBelowFirst (p : Node → Bool) : (insertBelowFirst xs ns).any p = (ns.any p || xs.any p) := by
  induction ns with
  | nil => rfl
  | cons n ns ih =>
    rw [insertBelowFirst]
    split
    · rw [List.any_cons, ih, List.any_cons, Bool.or_assoc]
    · rw [List.any_cons, List.any_append, List.any_cons, Bool.or_assoc, Bool.or_comm (xs.any p)]

theorem find?_insertBelowFirst {p : Node → Bool} (hx : xs.any p = false) :
    (insertBelowFirst xs ns).find? p = ns.find? p := by
  have hnone : xs.find? p = none := find?_of_not_any hx
  induction ns with
  | nil => exact hnone
  | cons n ns ih =>
    rw [insertBelowFirst]
    split
    · rw [List.find?_cons, List.find?_cons, ih]
    · rw [List.find?_cons, List.find?_cons, List.find?_append, hnone, Option.none_or]

theorem alterFirst_insertBelowFirst {p : Node → Bool} {g : Node → Node} (hx : xs.any p = false)
    (hg : ∀ n, (g n).isComment = n.isComment) :
    alterFirst p g (insertBelowFirst xs ns) = insertBelowFirst xs (alterFirst p g ns) := by
  have hskip : ∀ ys, alterFirst p g (xs ++ ys) = xs ++ alterFirst p g ys := by
    intro ys
    induction xs with
    | nil => rfl
    | cons x xs ih =>
      rw [List.any_cons, Bool.or_eq_false_iff] at hx
      rw [List.cons_append, alterFirst, if_neg (by simp [hx.1]), ih hx.2, List.cons_append]
  induction ns with
  | nil =>
    have := hskip []
    rw [List.append_nil, alterFirst, List.append_nil] at this
    exact this
  | cons n ns ih =>
    by_cases hp : p n = true
    · by_cases hc : n.isComment = true
      · rw [insertBelowFirst, if_pos hc, alterFirst, if_pos hp, alterFirst, if_pos hp, insertBelowFirst, if_pos (by rw [hg, hc])]
      · rw [insertBelowFirst, if_neg hc, alterFirst, if_pos hp, alterFirst, if_pos hp, insertBelowFirst,
          if_neg (by rw [hg]; exact hc)]
    · by_cases hc : n.isComment = true
      · rw [insertBelowFirst, if_pos hc, alterFirst, if_neg hp, alterFirst, if_neg hp, insertBelowFirst, if_pos hc, ih]
      · rw [insertBelowFirst, if_neg hc, alterFirst, if_neg hp, alterFirst, if_neg hp, insertBelowFirst, if_neg hc, hskip]

/-! ## Plain modules -/

/-- Is the last of the statements no comment? -/
def endsInStatement (ns : List Node) : Bool := ns.getLast?.all (!·.isComment)

theorem endsInStatement_append (h : xs ≠ []) (hx : endsInStatement xs = true) : endsInStatement (ns ++ xs) = true := by
  rw [endsInStatement, List.getLast?_append_of_ne_nil _ h]
  exact hx

/-- Below a comment, plain statements can be changed for others that are as far from it. -/
theorem plainStatements_below (hc : n.isComment = true) (h : plainStatements (n :: ns) = true) : plainStatements ns = true ∧
    ns.head?.all (fun m => m.isComment || blankBetween n m) = true ∧
    ∀ ms : List Node, ms.head?.all (fun m => m.isComment || blankBetween n m) = true → plainStatements ms = true →
      plainStatements (n :: ms) = true := by
  obtain ⟨l, s⟩ := n
  cases s with
  | comment c =>
    obtain ⟨⟨hsound, hbare⟩, hnext, h⟩ := plainStatements_comment h
    refine ⟨h, hnext, ?_⟩
    intro ms hnext' h'
    rw [plainStatements, hsound, hbare, hnext', h']
    rfl
  | _ => cases hc

theorem plainStatements_append : ∀ {ns : List Node}, plainStatements ns = true → endsInStatement ns = true →
    plainStatements xs = true → plainStatements (ns ++ xs) = true
  | [], _, _, hx => hx
  | n :: ns, h, hends, hx => by
    have hends' : endsInStatement ns = true := by
      cases ns with
      | nil => rfl
      | cons n' ns => rwa [endsInStatement, List.getLast?_cons_cons] at hends
    by_cases hc : n.isComment = true
    · obtain ⟨h, hnext, hbuild⟩ := plainStatements_below hc h
      refine hbuild _ ?_ (plainStatements_append h hends' hx)
      cases ns with
      | nil =>
        rw [endsInStatement, List.getLast?_singleton, Option.all_some, hc] at hends
        cases hends
      | cons => exact hnext
    · rw [Bool.not_eq_true] at hc
      rw [plainStatements_cons hc, Bool.and_eq_true] at h
      rw [List.cons_append, plainStatements_cons hc, h.1, plainStatements_append h.2 hends' hx]
      rfl

theorem plainStatement_extend (h : plainStatement n = true) (hends : endsInStatement (bodyOf n) = true)
    (hx : plainStatements xs = true) : plainStatement (extend xs n) = true := by
  obtain ⟨l, s⟩ := n
  cases s with
  | function f =>
    obtain ⟨name, params, body, isAsync⟩ := f
    change plainStatement ⟨l, .function ⟨name, params, body ++ xs, isAsync⟩⟩ = true
    rw [plainStatement, plainFunction] at h ⊢
    simp only [Bool.and_eq_true] at h ⊢
    exact ⟨h.1, h.2.1, plainStatements_append h.2.2 hends hx⟩
  | _ => exact h

section

variable {p : Node → Bool} {g : Node → Node} (hp : ∀ n, n.isComment = true → p n = false)
  (hl : ∀ n, p n = true → (g n).layout = n.layout) (hh : ∀ n, p n = true → (g n).shape.head = n.shape.head)

include hp hl hh

/-- A statement that shows the same of itself is as far from a comment above it. -/
theorem next_alterFirst {c : Node} (h : ns.head?.all (fun n => n.isComment || blankBetween c n) = true) :
    (alterFirst p g ns).head?.all (fun n => n.isComment || blankBetween c n) = true := by
  cases ns with
  | nil => rfl
  | cons n ns =>
    rw [List.head?_cons, Option.all_some] at h
    by_cases hpn : p n = true
    · have hc : n.isComment = false := by
        by_contra hc
        rw [hp n (by simpa using hc)] at hpn
        cases hpn
      rw [hc, Bool.false_or] at h
      rw [alterFirst, if_pos hpn, List.head?_cons, Option.all_some,
        blankBetween_of_heads rfl (hh n hpn) (hl n hpn), h]
      exact Bool.or_true _
    · rw [alterFirst, if_neg hpn, List.head?_cons, Option.all_some, h]

/-- **A statement that shows the same of itself** leaves plain statements plain, when it is plain. -/
theorem plainStatements_change : ∀ {ns : List Node}, plainStatements ns = true →
    (∀ n, ns.find? p = some n → plainStatement n = true → plainStatement (g n) = true) →
      plainStatements (alterFirst p g ns) = true
  | [], _, _ => rfl
  | n :: ns, h, hplain => by
    by_cases hc : n.isComment = true
    · have hpn : ¬ p n = true := by simp [hp n hc]
      rw [List.find?_cons_of_neg hpn] at hplain
      obtain ⟨h, hnext, hbuild⟩ := plainStatements_below hc h
      rw [alterFirst, if_neg hpn]
      exact hbuild _ (next_alterFirst hp hl hh hnext) (plainStatements_change h hplain)
    · rw [Bool.not_eq_true] at hc
      rw [plainStatements_cons hc, Bool.and_eq_true, Bool.and_eq_true] at h
      by_cases hpn : p n = true
      · have hgn := hplain n (List.find?_cons_of_pos hpn) h.1.2
        rw [alterFirst, if_pos hpn, plainStatements_cons (isComment_of_plainStatement hgn), hl n hpn, h.1.1, hgn, h.2]
        rfl
      · rw [List.find?_cons_of_neg hpn] at hplain
        rw [alterFirst, if_neg hpn, plainStatements_cons hc, h.1.1, h.1.2, plainStatements_change h.2 hplain]
        rfl

end

theorem plainStatements_alterFirst {p : Node → Bool} (hp : ∀ n, n.isComment = true → p n = false)
    (hx : plainStatements xs = true) {ns : List Node} (h : plainStatements ns = true)
    (hends : ∀ n, ns.find? p = some n → endsInStatement (bodyOf n) = true) : plainStatements (alterFirst p (extend xs) ns) = true :=
  plainStatements_change hp (fun n _ => layout_extend xs n) (fun n _ => head_extend xs n) h fun n hn hplain =>
    plainStatement_extend hplain (hends n hn) hx

theorem plainStatements_insertBelowFirst (hx : plainStatements xs = true) (hends : endsInStatement xs = true) :
    ∀ {ns : List Node}, ns.any (!·.isComment) = true → plainStatements ns = true → plainStatements (insertBelowFirst xs ns) = true
  | n :: ns, hany, h => by
    by_cases hc : n.isComment = true
    · rw [List.any_cons, hc] at hany
      obtain ⟨h, hnext, hbuild⟩ := plainStatements_below hc h
      rw [insertBelowFirst, if_pos hc]
      refine hbuild _ ?_ (plainStatements_insertBelowFirst hx hends hany h)
      cases ns with
      | nil => cases hany
      | cons m ns =>
        have hhead : (insertBelowFirst xs (m :: ns)).head? = some m := by
          rw [insertBelowFirst]
          split <;> rfl
        rw [hhead]
        exact hnext
    · rw [insertBelowFirst, if_neg hc]
      rw [Bool.not_eq_true] at hc
      rw [plainStatements_cons hc, Bool.and_eq_true] at h
      rw [plainStatements_cons hc, h.1, plainStatements_append hx hends h.2]
      rfl

/-! ## Reading back -/

/-- What a node is after it was written and read back any number of times. -/
def Node.Rereads : Node → Node → Prop := Relation.ReflTransGen Node.ReadsAs

theorem blanksAfter_append (hxs : List.Forall₂ Node.ReadsAs ns ns') (ys : List Node) : ∀ {p p' : Option Node},
    p'.map (·.shape.head) = p.map (·.shape.head) → blanksAfter p' ns' = blanksAfter p ns →
    blanksAfter p' (ns' ++ ys) = blanksAfter p (ns ++ ys) := by
  induction hxs with
  | nil =>
    intro p p' hp _
    cases ys with
    | nil => rfl
    | cons y ys =>
      have hblank : p'.any (blankBetween · y) = p.any (blankBetween · y) := by
        cases p with
        | none =>
          cases p' with
          | none => rfl
          | some q => cases hp
        | some q =>
          cases p' with
          | none => cases hp
          | some q' => exact blankBetween_of_heads (Option.some.inj hp) rfl rfl
      exact congrArg (· :: blanksAfter (some y) ys) hblank
  | cons hn _ ih =>
    intro p p' hp h
    obtain ⟨hblank, hrest⟩ := List.cons.inj h
    exact List.cons_eq_cons.2 ⟨hblank, ih (congrArg some hn.head_eq) hrest⟩

/-- A function that was extended is read back as its reading extended. -/
theorem Node.ReadsAs.extend (h : n.ReadsAs n') (hx : List.Forall₂ Node.ReadsAs xs xs) :
    (Script.extend xs n).ReadsAs (Script.extend xs n') := by
  obtain ⟨l, s⟩ := n
  obtain ⟨m, s'⟩ := n'
  have hhead := h.head_eq
  cases h with
  | mk hc ht hs =>
    cases s with
    | function f =>
      obtain ⟨body, rfl, hbody, hblanks⟩ := hs.of_function
      exact .mk hc ht (.function (List.rel_append hbody hx) (blanksAfter_append hbody xs rfl hblanks))
    | _ =>
      have hs' : Script.extend xs ⟨m, s'⟩ = ⟨m, s'⟩ := by cases s' <;> first | rfl | cases hhead
      rw [hs']
      exact .mk hc ht hs

/-- A function is read back with the same calls. -/
theorem any_invocation_again (x : Option Text) : ∀ {ns ns' : List Node}, plainStatements ns = true →
    List.Forall₂ Node.ReadsAs ns ns' → ns'.any (Query.invocation x).finds = ns.any (Query.invocation x).finds
  | [], _, _, .nil => rfl
  | n :: ns, _, h, .cons hn hns => by
    by_cases hc : n.isComment = true
    · have hnot : ∀ {m : Node}, m.isComment = true → (Query.invocation x).finds m = false := by
        rintro ⟨l, s⟩ hm
        cases s <;> first | rfl | cases hm
      rw [List.any_cons, List.any_cons, hnot (hn.isComment_eq.trans hc), hnot hc,
        any_invocation_again x (plainStatements_below hc h).1 hns]
    · rw [Bool.not_eq_true] at hc
      rw [plainStatements_cons hc, Bool.and_eq_true, Bool.and_eq_true] at h
      rw [List.any_cons, List.any_cons, hn.finds_invocation h.1.2, any_invocation_again x h.2 hns]

theorem forall₂_bodyOf (h : n.ReadsAs n') : List.Forall₂ Node.ReadsAs (bodyOf n) (bodyOf n') := by
  obtain ⟨l, s⟩ := n
  obtain ⟨m, s'⟩ := n'
  have hhead := h.head_eq
  cases h with
  | mk hc ht hs =>
    cases s with
    | function f =>
      obtain ⟨body, rfl, hbody, -⟩ := hs.of_function
      exact hbody
    | _ =>
      have hs' : bodyOf ⟨m, s'⟩ = [] := by cases s' <;> first | rfl | cases hhead
      rw [hs']
      exact .nil

theorem plainStatements_bodyOf (h : plainStatement n = true) : plainStatements (bodyOf n) = true := by
  obtain ⟨l, s⟩ := n
  cases s with
  | function f =>
    obtain ⟨name, params, body, isAsync⟩ := f
    rw [plainStatement, plainFunction] at h
    simp only [Bool.and_eq_true] at h
    exact h.2.2
  | _ => rfl

theorem endsInStatement_again (h : List.Forall₂ Node.ReadsAs ns ns') : endsInStatement ns' = endsInStatement ns := by
  have hmap : ns'.map Node.isComment = ns.map Node.isComment := by
    induction h with
    | nil => rfl
    | cons hn _ ih => rw [List.map_cons, List.map_cons, hn.isComment_eq, ih]
  have hends : ∀ ns : List Node, endsInStatement ns = (ns.map Node.isComment).getLast?.all (!·) := by
    intro ns
    rw [endsInStatement, List.getLast?_map]
    cases ns.getLast? <;> rfl
  rw [hends, hends, hmap]

namespace Node.Rereads

theorem finds_function (h : n.Rereads n') (x : Option Text) : (Query.function x).finds n' = (Query.function x).finds n := by
  induction h with
  | refl => rfl
  | tail _ h ih => exact (h.finds_function x).trans ih

theorem finds_imports (h : n.Rereads n') (x : Option Text) : (Query.imports x).finds n' = (Query.imports x).finds n := by
  induction h with
  | refl => rfl
  | tail _ h ih => exact (h.finds_imports x).trans ih

theorem isComment_eq (h : n.Rereads n') : n'.isComment = n.isComment := by
  induction h with
  | refl => rfl
  | tail _ h ih => exact h.isComment_eq.trans ih

theorem plainStatement (h : n.Rereads n') (hn : plainStatement n = true) : Script.plainStatement n' = true := by
  induction h with
  | refl => exact hn
  | tail _ h ih => exact statement_again ih h

theorem extend (h : n.Rereads n') (hx : List.Forall₂ Node.ReadsAs xs xs) :
    (Script.extend xs n).Rereads (Script.extend xs n') :=
  Relation.ReflTransGen.lift (Script.extend xs) (fun _ _ => (Node.ReadsAs.extend · hx)) _ _ h

theorem calls_eq (x : Option Text) (hn : Script.plainStatement n = true) (h : n.Rereads n') :
    (bodyOf n').any (Query.invocation x).finds = (bodyOf n).any (Query.invocation x).finds := by
  induction h with
  | refl => rfl
  | tail h h' ih =>
    have hplain := plainStatements_bodyOf (plainStatement h hn)
    exact (any_invocation_again x hplain (forall₂_bodyOf h')).trans ih

theorem endsInStatement_bodyOf (h : n.Rereads n') : endsInStatement (bodyOf n') = endsInStatement (bodyOf n) := by
  induction h with
  | refl => rfl
  | tail _ h ih => exact (endsInStatement_again (forall₂_bodyOf h)).trans ih

end Node.Rereads

section

variable {R : Node → Node → Prop}

theorem rel_alterFirst {p : Node → Bool} {g : Node → Node} (hp : ∀ a b, R a b → p b = p a) (hg : ∀ a b, R a b → R (g a) (g b))
    (h : List.Forall₂ R ns ns') : List.Forall₂ R (alterFirst p g ns) (alterFirst p g ns') := by
  induction h with
  | nil => exact .nil
  | @cons a b as bs hab has ih =>
    by_cases hpa : p a = true
    · rw [alterFirst, alterFirst, if_pos hpa, if_pos ((hp a b hab).trans hpa)]
      exact .cons (hg a b hab) has
    · rw [alterFirst, alterFirst, if_neg hpa, if_neg (by rw [hp a b hab]; exact hpa)]
      exact .cons hab ih

theorem rel_insertBelowFirst (hc : ∀ a b, R a b → b.isComment = a.isComment) (hx : List.Forall₂ R xs xs)
    (h : List.Forall₂ R ns ns') : List.Forall₂ R (insertBelowFirst xs ns) (insertBelowFirst xs ns') := by
  induction h with
  | nil => exact hx
  | @cons a b as bs hab has ih =>
    by_cases ha : a.isComment = true
    · rw [insertBelowFirst, insertBelowFirst, if_pos ha, if_pos ((hc a b hab).trans ha)]
      exact .cons hab ih
    · rw [insertBelowFirst, insertBelowFirst, if_neg ha, if_neg (by rw [hc a b hab]; exact ha)]
      exact .cons hab (List.rel_append hx has)

theorem rel_any {p : Node → Bool} (hp : ∀ a b, R a b → p b = p a) (h : List.Forall₂ R ns ns') : ns'.any p = ns.any p := by
  induction h with
  | nil => rfl
  | @cons a b as bs hab _ ih => rw [List.any_cons, List.any_cons, hp a b hab, ih]

theorem rel_find? {p : Node → Bool} (hp : ∀ a b, R a b → p b = p a) (h : List.Forall₂ R ns ns') (hn : ns.find? p = some n) :
    ∃ n', ns'.find? p = some n' ∧ R n n' := by
  induction h with
  | nil => cases hn
  | @cons a b as bs hab _ ih =>
    by_cases hpa : p a = true
    · rw [List.find?_cons_of_pos hpa] at hn
      cases hn
      exact ⟨b, List.find?_cons_of_pos ((hp _ b hab).trans hpa), hab⟩
    · rw [List.find?_cons_of_neg hpa] at hn
      obtain ⟨n', hn', hr⟩ := ih hn
      exact ⟨n', by rw [List.find?_cons_of_neg (by rw [hp a b hab]; exact hpa), hn'], hr⟩

end

end ApiRoutes.Script
