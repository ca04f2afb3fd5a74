import ApiRoutes.Proofs.Script.Data
import ApiRoutes.Proofs.Script.Insertion
import ApiRoutes.Proofs.Route.Rendering
/-!
# Plain modules

A plain module stays plain when the function that it exports is given other plain statements (`plain_withRouteBody`),
and plain statements do with another plain collection (`plain_declare`).  What a text is read back as exports a
function (`exported?_again`), declares an array (`arrayOf_again`) and describes parameters
(`finds_parameterEntry_again`) as what the text was written of does.
-/
namespace ApiRoutes.Route

open Script

variable {key : Text} {n n' : Node} {body : List Node} {ds : List Declarator} {d : Declarator} {c : Node}

/-! ## Plain parts -/

theorem plainEntries_cons (n : Node) (ns : List Node) : plainEntries (n :: ns) = (plainEntries [n] && plainEntries ns) := by
  obtain ⟨l, s⟩ := n
  cases s with
  | property k v shorthand =>
    cases shorthand with
    | false => simp only [plainEntries, Bool.and_true]
    | true =>
      obtain ⟨m, s⟩ := v
      cases s <;> simp only [plainEntries, Bool.and_true, Bool.false_and]
  | _ => rfl

theorem plainEntries_iff : ∀ {ns : List Node}, plainEntries ns = true ↔ ∀ n ∈ ns, plainEntries [n] = true
  | [] => by simp [plainEntries]
  | n :: ns => by rw [plainEntries_cons, Bool.and_eq_true, @plainEntries_iff ns, List.forall_mem_cons]

theorem plainElements_iff : ∀ {ns : List Node}, plainElements ns = true ↔
    ∀ n ∈ ns, n.layout.isPlain = true ∧ plainExpression n = true
  | [] => by simp [plainElements]
  | n :: ns => by rw [plainElements, Bool.and_eq_true, Bool.and_eq_true, @plainElements_iff ns, List.forall_mem_cons]

theorem plainDeclarators_iff : ∀ {ds : List Declarator}, plainDeclarators ds = true ↔
    ∀ d ∈ ds, (d.layout.isBare = true ∧ isPlainName d.name = true) ∧
      ∀ c, d.init = some c → c.isBare = true ∧ plainExpression c = true
  | [] => by simp [plainDeclarators]
  | ⟨l, x, init⟩ :: ds => by
    rw [plainDeclarators, Bool.and_eq_true, Bool.and_eq_true, Bool.and_eq_true, @plainDeclarators_iff ds,
      List.forall_mem_cons]
    cases init <;> simp

/-! ## Plain statements with other parts -/

theorem plain_init (h : plainStatements body = true) (hc : (declaration? body).bind (·.init) = some c) :
    c.isBare = true ∧ plainExpression c = true := by
  obtain ⟨d, hd, hc⟩ := Option.bind_eq_some_iff.1 hc
  rw [declaration?_eq] at hd
  obtain ⟨n, hn, hd⟩ := Option.bind_eq_some_iff.1 hd
  obtain ⟨l, s⟩ := n
  cases s with
  | «variables» kind ds =>
    have hplain := plainStatements_mem h _ (List.mem_of_find?_eq_some hn) rfl
    rw [plainStatement, Bool.and_eq_true] at hplain
    exact (plainDeclarators_iff.1 hplain.2 d (List.mem_of_find?_eq_some hd)).2 c hc
  | _ => cases hd

theorem plain_collectionNode (k : Collection) (h : plainStatements body = true) :
    (collectionNode k body).isBare = true ∧ plainExpression (collectionNode k body) = true := by
  have hempty : k.empty.isBare = true ∧ plainExpression k.empty = true := by cases k <;> exact ⟨rfl, rfl⟩
  unfold collectionNode
  split
  · split
    · exact plain_init h ‹_›
    · exact hempty
  · exact hempty

theorem plain_mapDeclarator (hbare : c.isBare = true) (hplain : plainExpression c = true)
    (h : plainDeclarators ds = true) : plainDeclarators (mapDeclarator collectionVariable (initialised c) ds) = true := by
  rw [mapDeclarator_eq, plainDeclarators_iff]
  intro d hd
  obtain ⟨e, he, rfl | ⟨-, rfl⟩⟩ := mem_alterFirst hd
  · exact plainDeclarators_iff.1 h d he
  · refine ⟨(plainDeclarators_iff.1 h e he).1, fun c' hc => ?_⟩
    cases hc
    exact ⟨hbare, hplain⟩

theorem plain_initialised (hbare : c.isBare = true) (hplain : plainExpression c = true) (hn : plainStatement n = true) :
    plainStatement (changeVariable (initialised c) n) = true := by
  obtain ⟨l, s⟩ := n
  cases s with
  | «variables» kind ds =>
    change plainStatement ⟨l, .variables kind (mapDeclarator collectionVariable (initialised c) ds)⟩ = true
    rw [plainStatement] at hn ⊢
    simp only [Bool.and_eq_true] at hn
    rw [hn.1.1, plain_mapDeclarator hbare hplain hn.2, mapDeclarator_eq]
    cases ds with
    | nil => exact hn.1.2
    | cons d ds =>
      rw [alterFirst]
      split <;> rfl
  | _ => exact hn

/-- **Plain statements with a plain collection** are plain. -/
theorem plain_declare (h : plainStatements body = true) (hbare : c.isBare = true) (hplain : plainExpression c = true) :
    plainStatements (declare c body) = true := by
  by_cases hany : body.any declares = true
  · rw [declare_of_any hany, mapVariable_eq]
    refine plainStatements_change ?_ ?_ ?_ h fun n _ => plain_initialised hbare hplain
    · rintro ⟨l, s⟩ hc
      cases s <;> first | rfl | cases hc
    · rintro ⟨l, s⟩ -
      cases s <;> rfl
    · rintro ⟨l, s⟩ -
      cases s <;> rfl
  · rw [declare_of_not_any (Bool.eq_false_iff.2 hany), plainStatements_cons rfl, plain_const (by decide) hbare hplain, h]
    rfl

theorem plain_exported {f : Function} {ns : List Node} (h : plainStatements ns = true) (hf : exported? ns = some f) :
    plainStatements f.body = true := by
  obtain ⟨l, l', hn⟩ := find?_exported hf
  have hplain := plainStatements_mem h _ (List.mem_of_find?_eq_some hn) rfl
  obtain ⟨name, params, body, isAsync⟩ := f
  rw [plainStatement, plainExported, plainFunction] at hplain
  simp only [Bool.and_eq_true] at hplain
  exact hplain.2.2.2

theorem plain_withRouteBody {p : Program} {f : Function} (hp : p.isPlain = true) (hf : exported? p.body = some f)
    (h : plainStatements body = true) : (withRouteBody body p).isPlain = true := by
  obtain ⟨l, l', hn⟩ := find?_exported hf
  change plainStatements (alterFirst _ _ (withExport p.body)) = true
  rw [withExport, if_pos (any_of_find? hn)]
  refine plainStatements_change ?_ ?_ ?_ hp fun n hn' hplain => ?_
  · rintro ⟨l, s⟩ hc
    cases s <;> first | rfl | cases hc
  · rintro ⟨l, s⟩ -
    cases s with
    | exportDefault d =>
      obtain ⟨m, s⟩ := d
      cases s <;> rfl
    | _ => rfl
  · rintro ⟨l, s⟩ -
    cases s with
    | exportDefault d =>
      obtain ⟨m, s⟩ := d
      cases s <;> rfl
    | _ => rfl
  · rw [hn, Option.some.injEq] at hn'
    subst hn'
    obtain ⟨name, params, body', isAsync⟩ := f
    change plainStatement ⟨l, .exportDefault ⟨l', .function ⟨name, params, body, isAsync⟩⟩⟩ = true
    rw [plainStatement, plainExported, plainFunction] at hplain ⊢
    simp only [Bool.and_eq_true] at hplain ⊢
    exact ⟨hplain.1, hplain.2.1, hplain.2.2.1, h⟩

/-! ## What is read back -/

theorem hasKey_again (h : n.ReadsAs n') : hasKey key n' = hasKey key n := by
  cases h with
  | mk _ _ hs =>
    cases hs with
    | number _ _ hs => cases hs <;> rfl
    | access ha h => rcases (Shape.ReadsAs.access ha h).of_access with ⟨_, _, _, rfl⟩ | ⟨_, _, _, _, _, rfl⟩ <;> rfl
    | _ => rfl

/-- A property is read back as one of the same key. -/
theorem property_again {l : Layout} {k : Text} {w : Node} {shorthand : Bool} (h : (Node.mk l (.property k w shorthand)).ReadsAs n') :
    ∃ m w', n' = ⟨m, .property k w' shorthand⟩ ∧ w.ReadsAs w' := by
  cases h with
  | mk _ _ hs =>
    cases hs with
    | property hw => exact ⟨_, _, rfl, hw⟩

theorem isNumber_of_numberValue? {cs : List Char} (h : numberValue? cs = some v) : isNumber v = true := by
  unfold numberValue? at h
  dsimp only at h
  split at h
  · cases h
    rfl
  · obtain ⟨_, -, rfl⟩ := Option.map_eq_some_iff.1 h
    rfl

/-- An expression is read back as a text if it is that text, and only then. -/
theorem scalarOf_again {t : Text} (h : n.ReadsAs n') : scalarOf n' = .text t ↔ scalarOf n = .text t := by
  have hnumber : ∀ {v : Value}, isNumber v = true → v ≠ .text t := by
    rintro v hv rfl
    cases hv
  cases h with
  | mk _ _ hs =>
    cases hs with
    | number hv _ hs =>
      refine iff_of_false ?_ (hnumber hv)
      cases hs with
      | literal _ hvalue => exact hnumber (isNumber_of_numberValue? hvalue)
      | _ => nofun
    | access ha h => rcases (Shape.ReadsAs.access ha h).of_access with ⟨_, _, _, rfl⟩ | ⟨_, _, _, _, _, rfl⟩ <;> exact Iff.rfl
    | _ => exact Iff.rfl

theorem find?_again {p : Node → Bool} {ns ns' : List Node} (hp : ∀ a b : Node, a.ReadsAs b → p b = p a)
    (h : List.Forall₂ Node.ReadsAs ns ns') : match ns.find? p with
      | some n => ∃ n', ns'.find? p = some n' ∧ n.ReadsAs n'
      | none => ns'.find? p = none := by
  cases hn : ns.find? p with
  | some n => exact rel_find? hp h hn
  | none =>
    refine find?_of_not_any ?_
    rw [rel_any hp h, Bool.eq_false_iff]
    intro hany
    obtain ⟨n, hn'⟩ := exists_find?_of_any hany
    rw [hn] at hn'
    cases hn'

theorem scalarAt_again {t : Text} {ps qs : List Node} (h : List.Forall₂ Node.ReadsAs ps qs) :
    Node.scalarAt key qs = .text t ↔ Node.scalarAt key ps = .text t := by
  have hfind := find?_again (p := hasKey key) (fun _ _ => hasKey_again) h
  cases hn : ps.find? (hasKey key) with
  | none =>
    rw [hn] at hfind
    rw [Node.scalarAt, Node.scalarAt, isProperty_eq, hn, show qs.find? (hasKey key) = none from hfind]
  | some n =>
    rw [hn] at hfind
    obtain ⟨n', hn', hr⟩ := hfind
    obtain ⟨w, shorthand, hs⟩ := hasKey_iff.1 (List.find?_some hn)
    obtain ⟨l, s⟩ := n
    cases hs
    obtain ⟨m, w', rfl, hw⟩ := property_again hr
    rw [scalarAt_of_find? hn, scalarAt_of_find? hn', scalarOf_again hw]

/-- **An object is read back as one that describes the same parameter.** -/
theorem finds_parameterEntry_again {location name : Text} (h : n.ReadsAs n') :
    (Query.parameterEntry (.text location) (.text name)).finds n' =
      (Query.parameterEntry (.text location) (.text name)).finds n := by
  cases h with
  | mk _ _ hs =>
    cases hs with
    | object hps =>
      rw [Bool.eq_iff_iff, finds_parameterEntry, finds_parameterEntry]
      simp [Node.shape, scalarAt_again hps]
    | number _ _ hs => cases hs <;> rfl
    | access ha h => rcases (Shape.ReadsAs.access ha h).of_access with ⟨_, _, _, rfl⟩ | ⟨_, _, _, _, _, rfl⟩ <;> rfl
    | _ => rfl

theorem declarator?_again {ds' : List Declarator} (h : List.Forall₂ Declarator.ReadsAs ds ds')
    (hd : Node.declarator? key ds = some d) (hc : d.init = some c) :
    ∃ d' c', Node.declarator? key ds' = some d' ∧ d'.init = some c' ∧ c.ReadsAs c' := by
  induction h with
  | nil => cases hd
  | @cons e e' ds ds' he _ ih =>
    have hname : e'.name = e.name := by cases he <;> rfl
    rw [Node.declarator?] at hd ih ⊢
    rw [List.find?_cons] at hd ⊢
    rw [hname]
    cases hk : e.name == key with
    | true =>
      rw [hk] at hd
      cases hd
      cases he with
      | bare => cases hc
      | init hr =>
        cases hc
        exact ⟨_, _, rfl, rfl, hr⟩
    | false =>
      rw [hk] at hd
      exact ih hd

theorem declares_again (h : n.ReadsAs n') : declares n' = declares n := by
  cases h with
  | mk _ _ hs =>
    cases hs with
    | «variables» hds =>
      change List.any _ _ = List.any _ _
      induction hds with
      | nil => rfl
      | cons hd _ ih => rw [List.any_cons, List.any_cons, ih]; cases hd <;> rfl
    | number _ _ hs => cases hs <;> rfl
    | access ha h => rcases (Shape.ReadsAs.access ha h).of_access with ⟨_, _, _, rfl⟩ | ⟨_, _, _, _, _, rfl⟩ <;> rfl
    | _ => rfl

/-- **The array is read back** with what its elements are read back as. -/
theorem arrayOf_again {ns ns' es : List Node} {l : Layout} {inline : Bool} (h : List.Forall₂ Node.ReadsAs ns ns')
    (hc : (declaration? ns).bind (·.init) = some ⟨l, .array es inline⟩) :
    List.Forall₂ Node.ReadsAs es (collectionOf .array ns') := by
  obtain ⟨d, hd, hc⟩ := Option.bind_eq_some_iff.1 hc
  rw [declaration?_eq] at hd
  obtain ⟨n, hn, hd⟩ := Option.bind_eq_some_iff.1 hd
  obtain ⟨n', hn', hr⟩ := rel_find? (p := declares) (fun _ _ => declares_again) h hn
  obtain ⟨m, s⟩ := n
  cases s with
  | «variables» kind ds =>
    cases hr with
    | @mk _ m' _ _ _ _ hs =>
      cases hs with
      | @«variables» _ _ ds' hds =>
        obtain ⟨d', c', hd', hc', hr⟩ := declarator?_again hds hd hc
        have hdeclared : declared? ⟨m', .variables kind ds'⟩ = some d' := hd'
        rw [collectionOf, declaration?_eq, hn', Option.bind_some, hdeclared, Option.bind_some, hc']
        cases hr with
        | mk _ _ hs =>
          cases hs with
          | array hes => exact hes
  | _ => cases hd

theorem exported?_again {ns ns' : List Node} {f : Function} (h : List.Forall₂ Node.ReadsAs ns ns') (hf : exported? ns = some f) :
    ∃ f', exported? ns' = some f' ∧ List.Forall₂ Node.ReadsAs f.body f'.body := by
  have hexport : ∀ a b : Node, a.ReadsAs b → Query.defaultExport.finds b = Query.defaultExport.finds a := by
    intro a b h
    have hhead : ∀ n : Node, Query.defaultExport.finds n = match n.shape.head with
        | .exportDefault => true
        | _ => false := by
      rintro ⟨l, s⟩
      cases s <;> rfl
    rw [hhead, hhead, h.head_eq]
  obtain ⟨l, l', hn⟩ := find?_exported hf
  obtain ⟨n', hn', hr⟩ := rel_find? hexport h hn
  cases hr with
  | mk _ _ hs =>
    cases hs with
    | exportDefault hd =>
      cases hd with
      | mk _ _ hs =>
        obtain ⟨body, rfl, hbody, -⟩ := hs.of_function
        exact ⟨{ f with body }, by rw [exported?, hn']; rfl, hbody⟩

end ApiRoutes.Route
