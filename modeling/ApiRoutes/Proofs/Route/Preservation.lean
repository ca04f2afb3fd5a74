import ApiRoutes.Proofs.Route.Run
/-!
# What merges preserve

The statements that people wrote (`mergeEndpoints_preserves`): whatever endpoints are merged into a
module, in whatever order, its statements stand as before, the exported function's too, but for the
first of every managed kind, and between them stands at most one new statement of a kind.
-/
namespace ApiRoutes.Route

open Script

/-! ## Statements among new ones -/

/-- The statements `after` have grown from `before` by merges for the kinds `ms`: `kept` is what
became of the statements before, `new` what came between them. -/
structure Grown (ms : List Managed) (before after kept new : List Node) : Prop where
  /-- Old and new statements stand in their order. -/
  woven : Weave kept new after
  /-- No old statement is lost. -/
  length : kept.length = before.length
  /-- An old statement is as it was, unless it is the first of a kind and was revised. -/
  unchanged : ∀ i a b, before[i]? = some a → kept[i]? = some b →
    a = b ∨ ∃ m ∈ ms, m.query.index? before = some i ∧ m.Revises a b
  /-- A new statement is one that a merge makes, perhaps revised by a later one. -/
  made : ∀ n ∈ new, ∃ m ∈ ms, ∃ n₀, m.New n₀ ∧ (n = n₀ ∨ m.Revises n₀ n)
  /-- There is at most one new statement of a kind, and none where there was an old one. -/
  once : ∀ m : Managed, new.countP m.finds ≤ if before.any m.finds then 0 else 1

namespace Grown

variable {ms : List Managed} {before after after' kept new : List Node}

theorem refl (ms : List Managed) (body : List Node) : Grown ms body body body [] where
  woven := .refl body
  length := rfl
  unchanged := fun i a b ha hb => .inl (by rw [ha] at hb; exact Option.some.inj hb)
  made := fun n hn => absurd hn List.not_mem_nil
  once := fun m => by simp

/-- What became of a statement is of the same kind. -/
theorem map_of? (h : Grown ms before after kept new) :
    kept.map Managed.of? = before.map Managed.of? := by
  refine List.ext_getElem? fun i => ?_
  rw [List.getElem?_map, List.getElem?_map]
  cases ha : before[i]? with
  | none =>
    have hi := List.getElem?_eq_none_iff.1 ha
    rw [List.getElem?_eq_none_iff.2 (by rw [h.length]; exact hi)]
  | some a =>
    obtain ⟨hi, -⟩ := List.getElem?_eq_some_iff.1 ha
    obtain ⟨b, hb⟩ : ∃ b, kept[i]? = some b :=
      ⟨_, List.getElem?_eq_getElem (by rw [h.length]; exact hi)⟩
    rw [hb, Option.map_some, Option.map_some]
    obtain rfl | ⟨m, -, hm, hr⟩ := h.unchanged i a b ha hb
    · rfl
    · have hf : before.find? m.finds = some a := (getElem?_of_findIdx? hm).symm.trans ha
      rw [hr.of?_eq (List.find?_some hf)]

theorem map_finds (h : Grown ms before after kept new) (m : Managed) :
    kept.map m.finds = before.map m.finds := by
  have hm : ∀ xs : List Node, xs.map m.finds = (xs.map Managed.of?).map (· == some m) := fun xs => by
    rw [List.map_map]
    exact List.map_congr_left fun n _ => m.finds_eq n
  rw [hm, hm, h.map_of?]

/-- Where an old statement is of a kind, no new one is. -/
theorem not_any_new (h : Grown ms before after kept new) {m : Managed}
    (hk : kept.any m.finds = true) : new.any m.finds = false := by
  have ho := h.once m
  rw [← any_eq_of_map_eq (h.map_finds m), hk, if_pos rfl] at ho
  rw [List.any_eq_false]
  exact List.countP_eq_zero.1 (Nat.le_zero.1 ho)

/-- Revising the first statement of a kind revises the first old one, or else the new one. -/
theorem revise (h : Grown ms before after kept new) {m : Managed} (hm : m ∈ ms) {g : Node → Node}
    (hg : ∀ n, m.finds n = true → m.Revises n (g n)) :
    Grown ms before (alterFirst m.finds g after) (alterFirst m.finds g kept)
      (alterFirst m.finds g new) where
  woven := h.woven.alterFirst h.not_any_new
  length := by rw [length_alterFirst, h.length]
  unchanged := fun i a b ha hb => by
    rw [getElem?_alterFirst, findIdx?_eq_of_map_eq (h.map_finds m)] at hb
    by_cases hi : before.findIdx? m.finds = some i
    · rw [if_pos hi] at hb
      obtain ⟨b₀, hb₀, rfl⟩ := Option.map_eq_some_iff.1 hb
      have ha' : m.finds a = true :=
        List.find?_some ((getElem?_of_findIdx? hi).symm.trans ha)
      obtain rfl | ⟨m', hm', hi', hr⟩ := h.unchanged i a b₀ ha hb₀
      · exact .inr ⟨m, hm, hi, hg a ha'⟩
      · have ha'' : m'.finds a = true :=
          List.find?_some ((getElem?_of_findIdx? hi').symm.trans ha)
        obtain rfl := Managed.finds_inj ha' ha''
        refine .inr ⟨m, hm, hi, hr.trans (hg b₀ ?_)⟩
        rw [Managed.finds_of_of?_eq (hr.of?_eq ha'), ha']
    · rw [if_neg hi] at hb
      exact h.unchanged i a b ha hb
  made := fun n hn => by
    obtain ⟨n₀, hn₀, hn⟩ := mem_alterFirst hn
    obtain ⟨m', hm', n₁, hnew, hr⟩ := h.made n₀ hn₀
    obtain rfl | ⟨hf, rfl⟩ := hn
    · exact ⟨m', hm', n₁, hnew, hr⟩
    · have hf' : m'.finds n₀ = true := by
        obtain rfl | hr := hr
        · exact hnew.finds
        · rw [Managed.finds_of_of?_eq (hr.of?_eq hnew.finds), hnew.finds]
      obtain rfl := Managed.finds_inj hf hf'
      refine ⟨m, hm', n₁, hnew, .inr ?_⟩
      obtain rfl | hr := hr
      · exact hg n₀ hf
      · exact hr.trans (hg n₀ hf)
  once := fun m' => by
    rw [countP_eq_of_map_eq (Managed.map_finds_alterFirst hg new m')]
    exact h.once m'

/-- A new statement of a kind that there is none of grows between the others. -/
theorem insert {pre post : List Node} (h : Grown ms before (pre ++ post) kept new) {m : Managed}
    (hm : m ∈ ms) {n : Node} (hn : m.New n) (hnone : (pre ++ post).any m.finds = false) :
    ∃ new', Grown ms before (pre ++ n :: post) kept new' := by
  obtain ⟨ns₁, ns₂, rfl, hw⟩ := h.woven.insert n
  refine ⟨ns₁ ++ n :: ns₂, hw, h.length, h.unchanged, fun x hx => ?_, fun m' => ?_⟩
  · rw [List.mem_append, List.mem_cons] at hx
    obtain hx | rfl | hx := hx
    · exact h.made x (List.mem_append_left _ hx)
    · exact ⟨m, hm, x, hn, .inl rfl⟩
    · exact h.made x (List.mem_append_right _ hx)
  · have ho := h.once m'
    rw [List.countP_append] at ho
    rw [List.countP_append, List.countP_cons]
    by_cases hm' : m'.finds n = true
    · obtain rfl := Managed.finds_inj hn.finds hm'
      have ha := h.woven.any m.finds
      rw [hnone, eq_comm, Bool.or_eq_false_iff] at ha
      rw [← any_eq_of_map_eq (h.map_finds m), ha.1]
      have hc := Managed.countP_eq_zero_of_not_any ha.2
      rw [List.countP_append] at hc
      rw [if_pos hm']
      simp only [Bool.false_eq_true, if_false]
      omega
    · rw [if_neg hm']
      exact ho

/-- **What a step keeps.** -/
theorem step (h : Grown ms before after kept new) {m : Managed} (hm : m ∈ ms)
    (hs : m.Step after after') : ∃ kept' new', Grown ms before after' kept' new' := by
  cases hs with
  | revise hg _ => exact ⟨_, _, h.revise hm hg⟩
  | insert hn hnone _ =>
    obtain ⟨new', h'⟩ := h.insert hm hn hnone
    exact ⟨kept, new', h'⟩

/-- **What a run of steps keeps.** -/
theorem steps {ms' : List Managed} (hs : Managed.Steps ms' after after') :
    ∀ {kept new : List Node}, Grown ms before after kept new → (∀ m ∈ ms', m ∈ ms) →
      ∃ kept' new', Grown ms before after' kept' new' := by
  induction hs with
  | nil => exact fun h _ => ⟨_, _, h⟩
  | cons hs _ ih =>
    intro kept new h hms
    obtain ⟨kept', new', h'⟩ := h.step (hms _ List.mem_cons_self) hs
    exact ih h' fun m hm => hms m (List.mem_cons_of_mem _ hm)

end Grown

/-! ## Whole runs -/

theorem eraseP_withExport (body : List Node) :
    (withExport body).eraseP Query.defaultExport.finds = body.eraseP Query.defaultExport.finds := by
  unfold withExport
  split
  · rfl
  · rename_i h
    have hn := List.any_eq_false.1 (Bool.eq_false_iff.2 h)
    rw [List.eraseP_append_right _ hn, List.eraseP_of_forall_not hn,
      List.eraseP_cons_of_pos (by rfl), List.append_nil]

/-- **A run of merges preserves what people wrote.**  The statements of the module other than the
first default export stay as they are, and the default export stays where it is; the statements of
the exported function have grown from those before the run by statements of the kinds that the
endpoints have. -/
theorem mergeEndpoints_preserves {es : List Spec.Endpoint} {path : Option Text} {p p' : Program}
    {logs : List Record} (h : (mergeEndpoints es path).perform p = (p', .ok (), logs)) :
    p'.layout = p.layout ∧
    p'.body.eraseP Query.defaultExport.finds = p.body.eraseP Query.defaultExport.finds ∧
    (∀ i, Query.defaultExport.index? p.body = some i →
      Query.defaultExport.index? p'.body = some i) ∧
    (∀ f, exported? p.body = some f → exported? p'.body = some { f with body := routeBody p' }) ∧
    ∃ kept new, Grown (es.flatMap managedBy) (routeBody p) (routeBody p') kept new := by
  obtain ⟨hp, ms, hs, hms⟩ := mergeEndpoints_takes (Edit.Takes.of_perform h)
  have hgrown := (Grown.refl (es.flatMap managedBy) (routeBody p)).steps hs fun m hm => (hms m).1 hm
  obtain ⟨-, rfl⟩ | ⟨hx, hp⟩ := hp
  · refine ⟨rfl, rfl, fun i hi => hi, fun f hf => ?_, hgrown⟩
    rw [routeBody, hf]
    rfl
  · generalize routeBody p' = body at hp hgrown ⊢
    subst hp
    refine ⟨rfl, ?_, fun i hi => ?_, fun f hf => ?_, hgrown⟩
    · rw [withRouteBody, eraseP_alterFirst fun n hn => by rw [finds_exporting]; exact hn,
        eraseP_withExport]
    · rw [Query.index?, withRouteBody,
        findIdx?_eq_of_map_eq (map_alterFirst (fun n _ => finds_exporting body n) _), withExport,
        if_pos (any_of_findIdx? hi)]
      exact hi
    · have ha : p.body.any Query.defaultExport.finds = true := by
        rw [← Bool.not_eq_false]
        intro ha
        rw [exported?, find?_of_not_any ha] at hf
        cases hf
      rw [exported?_withRouteBody, withExport, if_pos ha, hf]
      rfl

/-- A module that two merges of an endpoint leave with what it held. -/
theorem mergeEndpoints_preserves_sample :
    ∃ p' logs, (mergeEndpoints [sampleEndpoint, sampleEndpoint] none).perform sampleModule =
      (p', .ok (), logs) ∧
    p'.body.eraseP Query.defaultExport.finds = sampleModule.body.eraseP Query.defaultExport.finds ∧
    ∃ kept new, Grown ([sampleEndpoint, sampleEndpoint].flatMap managedBy) (routeBody sampleModule)
      (routeBody p') kept new := by
  have h : (mergeEndpoints [sampleEndpoint, sampleEndpoint] none).perform sampleModule =
      (_, .ok (), _) := Edit.perform_of_toBool (by decide +kernel)
  obtain ⟨-, hbody, -, -, hgrown⟩ := mergeEndpoints_preserves h
  exact ⟨_, _, h, hbody, hgrown⟩

end ApiRoutes.Route
