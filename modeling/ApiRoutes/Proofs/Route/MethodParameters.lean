import ApiRoutes.Proofs.Route.UpToDate
/-!
# Parameters of a method

What a merge of parameters makes of a handler, for every handler and every list of parameters
(`mergeMethodParameters_merges`).  Properties of the object keep their places and keys; a property that reads
one of the parameters goes on reading it, a parameter that no property reads gets one new property.
-/
namespace ApiRoutes.Route

open Script

variable {request : Text} {a b : Access} {as accesses : List Access} {xs ys old : List Node} {n m : Node}

/-! ## Properties of an object -/

/-- A new property that reads a parameter. -/
def accessProperty (a : Access) : Node := .property a.name (.access a)

/-- The properties with every access put into the first one that is for it, if there is one. -/
def withReadings (as : List Access) (xs : List Node) : List Node :=
  as.foldl (fun xs a => alterFirst (accessQuery a).finds (readAs a) xs) xs

/-- The accesses that no property is for, each once, in the order of their first occurrence. -/
def missing (as : List Access) (xs : List Node) : List Access :=
  (as.filter fun a => !xs.any (accessQuery a).finds).eraseDups

theorem reads_accessProperty (a : Access) : Reads a (accessProperty a) := ⟨false, rfl⟩

/-- The new property of an access is found for that access only. -/
theorem finds_accessProperty (hr : a.request = b.request) :
    (accessQuery a).finds (accessProperty b) = (b == a) := by
  rw [Bool.eq_iff_iff, beq_iff_eq]
  constructor
  · exact fun h => (eq_of_finds hr h (reads_accessProperty b).finds).symm
  · rintro rfl
    exact (reads_accessProperty b).finds

/-- A property that is given the access of a parameter is found by the same accesses as before. -/
theorem finds_readAs (hr : a.request = b.request) (h : (accessQuery b).finds n = true) :
    (accessQuery a).finds (readAs b n) = (accessQuery a).finds n := by
  rw [Bool.eq_iff_iff]
  constructor
  · intro ha
    obtain rfl := eq_of_finds hr ha (reads_readAs h).finds
    exact h
  · intro ha
    obtain rfl := eq_of_finds hr ha h
    exact (reads_readAs h).finds

theorem any_readAs (hr : a.request = b.request) (xs : List Node) :
    (alterFirst (accessQuery b).finds (readAs b) xs).any (accessQuery a).finds =
      xs.any (accessQuery a).finds :=
  any_alterFirst (fun _ hn => finds_readAs hr hn) xs

theorem withReadings_cons (b : Access) (as : List Access) (xs : List Node) :
    withReadings (b :: as) xs = withReadings as (alterFirst (accessQuery b).finds (readAs b) xs) := rfl

theorem withReadings_concat (h : ∀ a ∈ as, a.request = request) (hb : b.request = request) :
    withReadings as (xs ++ [accessProperty b]) = withReadings as xs ++ [accessProperty b] := by
  induction as generalizing xs with
  | nil => rfl
  | cons a as ih =>
    have hab : a.request = b.request := (h a List.mem_cons_self).trans hb.symm
    have hstep : alterFirst (accessQuery a).finds (readAs a) (xs ++ [accessProperty b]) =
        alterFirst (accessQuery a).finds (readAs a) xs ++ [accessProperty b] := by
      by_cases hx : xs.any (accessQuery a).finds = true
      · exact alterFirst_append_of_any hx
      · have hx := Bool.eq_false_iff.2 hx
        rw [alterFirst_append_of_not_any hx, alterFirst_of_not_any hx, alterFirst,
          finds_accessProperty hab, alterFirst.eq_1]
        split
        · rename_i hba
          rw [eq_of_beq hba, (reads_accessProperty a).readAs_eq]
        · rfl
    rw [withReadings_cons, hstep, withReadings_cons]
    exact ih fun c hc => h c (List.mem_cons_of_mem a hc)

theorem missing_readAs (h : ∀ a ∈ as, a.request = request) (hb : b.request = request) :
    missing as (alterFirst (accessQuery b).finds (readAs b) xs) = missing as xs := by
  refine congrArg List.eraseDups (List.filter_congr fun a ha => ?_)
  rw [any_readAs ((h a ha).trans hb.symm)]

theorem missing_cons_of_any (hx : xs.any (accessQuery b).finds = true) :
    missing (b :: as) xs = missing as xs := by
  rw [missing, List.filter_cons_of_neg (by simp [hx])]
  rfl

theorem missing_cons_of_not_any (h : ∀ a ∈ as, a.request = request) (hb : b.request = request)
    (hx : xs.any (accessQuery b).finds = false) :
    missing (b :: as) xs = b :: missing as (xs ++ [accessProperty b]) := by
  rw [missing, List.filter_cons_of_pos (by simp [hx]), List.eraseDups_cons, List.filter_filter]
  refine congrArg (b :: ·.eraseDups) (List.filter_congr fun a ha => ?_)
  rw [List.any_append, List.any_cons, List.any_nil, Bool.or_false,
    finds_accessProperty ((h a ha).trans hb.symm), Bool.not_or, Bool.and_comm]
  rw [Bool.beq_comm]

/-- **Accesses put into an object one after the other**: the properties there stay in their places, those that
are missing follow. -/
theorem foldl_putAccess_eq (h : ∀ a ∈ as, a.request = request) :
    as.foldl putAccess xs = withReadings as xs ++ (missing as xs).map accessProperty := by
  induction as generalizing xs with
  | nil => exact (List.append_nil xs).symm
  | cons b as ih =>
    have hb := h b List.mem_cons_self
    have has : ∀ a ∈ as, a.request = request := fun a ha => h a (List.mem_cons_of_mem b ha)
    rw [List.foldl_cons, putAccess_eq, ih has, putFirst, withReadings_cons]
    by_cases hx : xs.any (accessQuery b).finds = true
    · rw [if_pos hx, missing_readAs has hb, missing_cons_of_any hx]
    · have hx := Bool.eq_false_iff.2 hx
      rw [if_neg (by simp [hx]), missing_cons_of_not_any has hb hx, alterFirst_of_not_any hx]
      rw [show Node.property b.name (.access b) = accessProperty b from rfl,
        withReadings_concat has hb, List.append_assoc, List.map_cons, List.singleton_append]

/-! ## What becomes of the properties -/

/-- What becomes of a property in the object of a handler: it stays, its value is recognised as an access, or the
parameter that it reads by its key puts its own access there. -/
inductive Retained (as : List Access) : Node → Node → Prop
  | same (n : Node) : Retained as n n
  | tagged {l : Layout} {key : Text} {value : Node} {a : Access} (h : recogniseAccess? value key = some a) :
      Retained as ⟨l, .property key value false⟩ ⟨l, .property key (.access a) false⟩
  | read {l : Layout} {value : Node} {shorthand : Bool} {a b : Access} (ha : a ∈ as)
      (hb : recogniseAccess? value a.name = some b) (hl : b.location = a.location) :
      Retained as ⟨l, .property a.name value shorthand⟩ ⟨l, .property a.name (.access a) shorthand⟩

theorem recogniseAccess?_of_tagValue {key : Text} {value : Node} {l : Layout}
    (h : tagValue key value = .mk l (.access a)) : recogniseAccess? value key = some a := by
  unfold tagValue at h
  split at h
  · subst h
    rfl
  · rename_i hr _
    cases h
    exact hr
  · subst h
    rfl

theorem retained_tagProperty (as : List Access) (n : Node) : Retained as n (tagProperty n) := by
  obtain ⟨l, s⟩ := n
  cases s with
  | property key value shorthand =>
    cases shorthand with
    | true => exact .same _
    | false =>
      change Retained as _ (.mk l (.property key (tagValue key value) false))
      obtain h | ⟨a, h⟩ := tagValue_cases key value
      · rw [h]
        exact .same _
      · rw [h]
        exact .tagged (recogniseAccess?_of_tagValue h)
  | _ => exact .same _

theorem retained_readAs (ha : a ∈ as) (h : (accessQuery a).finds (tagProperty n) = true) :
    Retained as n (readAs a (tagProperty n)) := by
  obtain ⟨b, sh, lv, hl, hs⟩ := finds_accessQuery.1 h
  obtain ⟨l, s⟩ := n
  cases s with
  | property key value shorthand =>
    cases shorthand with
    | true =>
      cases hs
      exact .read ha rfl hl
    | false =>
      have hs : Shape.property key (tagValue key value) false = .property a.name (.mk lv (.access b)) sh := hs
      simp only [Shape.property.injEq] at hs
      obtain ⟨rfl, hv, rfl⟩ := hs
      exact .read ha (recogniseAccess?_of_tagValue hv) hl
  | _ => cases hs

/-- The property as it was, but for recognition, or with the access of a parameter that it reads. -/
def RetainedBy (as : List Access) (n m : Node) : Prop :=
  m = tagProperty n ∨ ∃ a ∈ as, (accessQuery a).finds (tagProperty n) = true ∧ m = readAs a (tagProperty n)

theorem RetainedBy.retained (h : RetainedBy as n m) : Retained as n m := by
  obtain rfl | ⟨a, ha, hf, rfl⟩ := h
  · exact retained_tagProperty as n
  · exact retained_readAs ha hf

theorem retainedBy_withReadings (h : ∀ a ∈ accesses, a.request = request) (hs : ∀ a ∈ as, a ∈ accesses)
    (hr : List.Forall₂ (RetainedBy accesses) old xs) :
    List.Forall₂ (RetainedBy accesses) old (withReadings as xs) := by
  induction as generalizing xs with
  | nil => exact hr
  | cons b as ih =>
    have hb := hs b List.mem_cons_self
    refine ih (fun a ha => hs a (List.mem_cons_of_mem b ha)) (forall₂_alterFirst_right (fun n m hnm hm => ?_) hr)
    obtain rfl | ⟨a, ha, hf, rfl⟩ := hnm
    · exact .inr ⟨b, hb, hm, rfl⟩
    · obtain rfl := eq_of_finds ((h a ha).trans (h b hb).symm) (reads_readAs hf).finds hm
      rw [(reads_readAs hf).readAs_eq]
      exact .inr ⟨a, ha, hf, rfl⟩

/-! ## How many properties read a parameter -/

theorem countP_withReadings (h : ∀ b ∈ as, b.request = a.request) :
    (withReadings as xs).countP (accessQuery a).finds = xs.countP (accessQuery a).finds := by
  induction as generalizing xs with
  | nil => rfl
  | cons b as ih =>
    rw [withReadings_cons, ih fun c hc => h c (List.mem_cons_of_mem b hc)]
    exact countP_eq_of_map_eq (map_alterFirst (fun n hn => finds_readAs (h b List.mem_cons_self).symm hn) xs)

theorem count_eraseDups {α : Type} [DecidableEq α] (x : α) : ∀ xs : List α,
    xs.eraseDups.count x = if x ∈ xs then 1 else 0
  | [] => rfl
  | y :: xs => by
    rw [List.eraseDups_cons, List.count_cons, count_eraseDups x]
    by_cases hxy : x = y
    · simp [hxy]
    · simp [hxy, Ne.symm hxy]
termination_by xs => xs.length
decreasing_by exact Nat.lt_succ_of_le (List.length_filter_le _ _)

theorem countP_missing (h : ∀ b ∈ as, b.request = request) (ha : a ∈ as) :
    ((missing as xs).map accessProperty).countP (accessQuery a).finds =
      if xs.any (accessQuery a).finds then 0 else 1 := by
  have hcount : ((missing as xs).map accessProperty).countP (accessQuery a).finds = (missing as xs).count a := by
    rw [List.countP_map]
    refine List.countP_congr fun b hb => ?_
    have hb := (List.mem_filter.1 (List.mem_eraseDups.1 hb)).1
    rw [Function.comp_apply, finds_accessProperty ((h a ha).trans (h b hb).symm)]
  rw [hcount, missing, count_eraseDups]
  by_cases hx : xs.any (accessQuery a).finds = true <;> simp [hx, ha]

/-- **A parameter is read once at least**, and as often as before where it was read before. -/
theorem countP_readingMembers (h : ∀ b ∈ as, b.request = request) (ha : a ∈ as) (old : List Node) :
    (readingMembers as old).countP (accessQuery a).finds =
      max 1 ((old.map tagProperty).countP (accessQuery a).finds) := by
  rw [readingMembers, foldl_putAccess_eq h, List.countP_append,
    countP_withReadings fun b hb => (h b hb).trans (h a ha).symm, countP_missing h ha]
  by_cases hx : (old.map tagProperty).any (accessQuery a).finds = true
  · have hpos := List.countP_pos_iff.2 (List.any_eq_true.1 hx)
    rw [if_pos hx]
    omega
  · have hzero := List.countP_eq_zero.2 (List.any_eq_false.1 (Bool.eq_false_iff.2 hx))
    rw [if_neg hx, hzero]
    rfl

/-! ## The handler -/

/-- Is the location of a parameter one that requests do not have? -/
def hasNoPlace (p : Spec.Parameter) : Bool := !accessLocations.any fun l => p.location == l

/-- The accesses to parameters of a request. -/
def accessesTo (request : Text) (ps : List Spec.Parameter) : List Access :=
  ps.map fun p => ⟨request, p.location, p.name⟩

theorem request_of_mem_accessesTo {ps : List Spec.Parameter} :
    ∀ a ∈ accessesTo request ps, a.request = request := by
  simp [accessesTo]

/-- The first parameter without a place is the one that is refused. -/
theorem mapM_accessTo_eq (request : Text) : ∀ ps : List Spec.Parameter,
    ps.mapM (accessTo request) = match ps.find? hasNoPlace with
      | some p => .error (.unsupportedLocation p.location p.name)
      | none => .ok (accessesTo request ps)
  | [] => rfl
  | p :: ps => by
    rw [List.mapM_cons, mapM_accessTo_eq request ps, List.find?_cons]
    by_cases hp : (accessLocations.any fun l => p.location == l) = true
    · rw [show hasNoPlace p = false by rw [hasNoPlace, hp]; rfl, accessTo, if_pos hp]
      rcases ps.find? hasNoPlace <;> rfl
    · rw [show hasNoPlace p = true by rw [hasNoPlace, Bool.eq_false_iff.2 hp]; rfl, accessTo, if_neg hp]
      rfl

/-- What a merge of parameters makes of a handler. -/
structure AccessesMerged (ps : List Spec.Parameter) (f f' : Function) : Prop where
  /-- Of the statements, only the object changes, which is declared first of all where it is missing. -/
  frame : f' = { f with body := declare (Collection.withMembers (collectionOf .object f'.body)
    (collectionNode .object f.body)) f.body }
  /-- The properties stay in their places; for the parameters that none of them reads there are new ones. -/
  members : ∃ kept, List.Forall₂ (Retained (accessesTo (requestName f.params) ps)) (collectionOf .object f.body) kept ∧
    collectionOf .object f'.body = kept ++
      (missing (accessesTo (requestName f.params) ps) ((collectionOf .object f.body).map tagProperty)).map accessProperty
  /-- No parameter is read twice that was not. -/
  count : ∀ a ∈ accessesTo (requestName f.params) ps,
    (collectionOf .object f'.body).countP (accessQuery a).finds =
      max 1 (((collectionOf .object f.body).map tagProperty).countP (accessQuery a).finds)

theorem accessesMerged_withAccesses (ps : List Spec.Parameter) (f : Function) :
    AccessesMerged ps f (withAccesses (accessesTo (requestName f.params) ps) f) := by
  have hreq : ∀ a ∈ accessesTo (requestName f.params) ps, a.request = requestName f.params := request_of_mem_accessesTo
  have hnew : collectionOf .object (withAccesses (accessesTo (requestName f.params) ps) f).body =
      readingMembers (accessesTo (requestName f.params) ps) (collectionOf .object f.body) := by
    rw [collectionOf_eq, collectionOf_eq]
    exact membersOf_declare (members?_methodCollection _ f.body) f.body
  refine ⟨?_, ⟨withReadings (accessesTo (requestName f.params) ps)
    ((collectionOf .object f.body).map tagProperty), ?_, ?_⟩, fun a ha => ?_⟩
  · rw [hnew, collectionOf_eq]
    rfl
  · have htagged : List.Forall₂ (RetainedBy (accessesTo (requestName f.params) ps)) (collectionOf .object f.body)
        ((collectionOf .object f.body).map tagProperty) :=
      List.forall₂_map_right_iff.2 (List.forall₂_same.2 fun n _ => .inl rfl)
    exact (retainedBy_withReadings hreq (fun _ ha => ha) htagged).imp fun _ _ h => h.retained
  · rw [hnew, readingMembers, foldl_putAccess_eq hreq]
  · rw [hnew, countP_readingMembers hreq ha]

/-- **A merge of parameters into a handler**: the first parameter whose location requests do not have is refused,
and then nothing has changed.  Otherwise the object of the handler reads every parameter, by the property that did
so before or else by a new one, and merging the same parameters again changes nothing. -/
theorem mergeMethodParameters_merges (ps : List Spec.Parameter) (f : Function) :
    match ps.find? hasNoPlace with
    | some p => (mergeMethodParameters ps).perform f = (f, .error (.unsupportedLocation p.location p.name), [])
    | none => ∃ f' logs logs', (mergeMethodParameters ps).perform f = (f', .ok (), logs) ∧
        AccessesMerged ps f f' ∧ (mergeMethodParameters ps).perform f' = (f', .ok (), logs') := by
  have hrun := mergeMethodParameters_run ps
  cases hp : ps.find? hasNoPlace with
  | some p =>
    have h := hrun f []
    rw [mapM_accessTo_eq, hp] at h
    dsimp only at h ⊢
    rw [Edit.perform_eq, h]
  | none =>
    have hgives : ∀ g : Function, (mergeMethodParameters ps).Gives g ()
        (withAccesses (accessesTo (requestName g.params) ps) g) := fun g l => by
      have h := hrun g l
      rw [mapM_accessTo_eq, hp] at h
      exact h
    obtain ⟨logs, h⟩ := (hgives f).perform
    obtain ⟨logs', h'⟩ := (hgives (withAccesses (accessesTo (requestName f.params) ps) f)).perform
    refine ⟨_, logs, logs', h, accessesMerged_withAccesses ps f, ?_⟩
    rw [h']
    exact congrArg (·, Except.ok (), logs') (withAccesses_withAccesses request_of_mem_accessesTo f)

end ApiRoutes.Route
