import ApiRoutes.Proofs.Entries
import ApiRoutes.Proofs.Outcomes
import ApiRoutes.Proofs.Route.UpToDate
/-!
# Parameters of an endpoint

What a merge of parameters makes of the array of an endpoint, for every list of statements and every list of
different parameters (`mergeEndpointParameters_merges`).  Every parameter has a literal for each of its fields, so
such a merge fails only when the fields themselves cannot be given.
-/
namespace ApiRoutes.Route

open Script

/-! ## Values have literals in the interchange format -/

/-- A value that literals are written for. -/
def HasLiteral (v : Value) : Prop := ∃ n, Node.ofValue v = .ok n

theorem exists_ofItems : ∀ {vs : List Value}, (∀ v ∈ vs, HasLiteral v) → ∃ ns, Node.ofItems vs = .ok ns
  | [], _ => ⟨[], rfl⟩
  | v :: vs, h => by
    obtain ⟨n, hn⟩ := h v List.mem_cons_self
    obtain ⟨ns, hns⟩ := exists_ofItems fun w hw => h w (List.mem_cons_of_mem v hw)
    exact ⟨n :: ns, by rw [Node.ofItems]; exact bind_eq_ok.2 ⟨n, hn, bind_eq_ok.2 ⟨ns, hns, rfl⟩⟩⟩

theorem exists_literals : ∀ {es : Entries}, (∀ e ∈ es, HasLiteral e.2) → ∃ ws, literals es = .ok ws
  | [], _ => ⟨[], rfl⟩
  | (k, v) :: es, h => by
    obtain ⟨n, hn⟩ := h (k, v) List.mem_cons_self
    obtain ⟨ws, hws⟩ := exists_literals fun e he => h e (List.mem_cons_of_mem _ he)
    exact ⟨(k.plain, n) :: ws, by rw [literals]; exact bind_eq_ok.2 ⟨n, hn, bind_eq_ok.2 ⟨ws, hws, rfl⟩⟩⟩

theorem hasLiteral_map {es : Entries} (h : ∀ e ∈ es, HasLiteral e.2) : HasLiteral (.map es) := by
  obtain ⟨ws, hws⟩ := exists_literals h
  refine ⟨.object (ws.map fun f => .property f.1 f.2), ?_⟩
  rw [Node.ofValue, ofEntries_eq, hws]
  rfl

mutual

/-- **The interchange form of a value has a literal**: it has neither bytes nor sets in it. -/
theorem hasLiteral_interchange : ∀ {v w : Value}, v.interchange = .ok w → HasLiteral w
  | .null, _, h | .bool _, _, h | .int _, _, h | .text _, _, h | .date _, _, h | .dateTime _, _, h => by
    rw [Value.interchange] at h
    cases h
    exact ⟨_, rfl⟩
  | .float x, _, h => by
    cases x <;>
    · simp only [Value.interchange] at h
      cases h
      exact ⟨_, rfl⟩
  | .bytes bs, _, h => by
    rw [Value.interchange] at h
    split at h <;> cases h
    exact ⟨_, rfl⟩
  | .list vs, _, h | .set vs, _, h => by
    rw [Value.interchange] at h
    obtain ⟨ws, hws, h⟩ := bind_eq_ok.1 h
    cases h
    obtain ⟨ns, hns⟩ := exists_ofItems (hasLiteral_interchangeItems hws)
    exact ⟨_, by rw [Node.ofValue, hns]; rfl⟩
  | .map es, _, h => by
    rw [Value.interchange] at h
    obtain ⟨fs, hfs, h⟩ := bind_eq_ok.1 h
    cases h
    have hall := Value.forall_ofEntries (P := fun _ => True) fun e he => ⟨trivial, hasLiteral_interchangeEntries hfs e he⟩
    exact hasLiteral_map fun e he => (hall e he).2

theorem hasLiteral_interchangeItems : ∀ {vs ws : List Value}, Value.interchangeItems vs = .ok ws →
    ∀ w ∈ ws, HasLiteral w
  | [], _, h => by
    cases h
    exact fun w hw => absurd hw List.not_mem_nil
  | v :: vs, _, h => by
    rw [Value.interchangeItems] at h
    obtain ⟨w, hw, h⟩ := bind_eq_ok.1 h
    obtain ⟨ws, hws, h⟩ := bind_eq_ok.1 h
    cases h
    exact List.forall_mem_cons.2 ⟨hasLiteral_interchange hw, hasLiteral_interchangeItems hws⟩

theorem hasLiteral_interchangeEntries : ∀ {es fs : Entries}, Value.interchangeEntries es = .ok fs →
    ∀ e ∈ fs, HasLiteral e.2
  | [], _, h => by
    cases h
    exact fun e he => absurd he List.not_mem_nil
  | (k, v) :: es, _, h => by
    rw [Value.interchangeEntries] at h
    obtain ⟨k', hk, h⟩ := bind_eq_ok.1 h
    obtain ⟨w, hw, h⟩ := bind_eq_ok.1 h
    obtain ⟨fs, hfs, h⟩ := bind_eq_ok.1 h
    cases h
    exact List.forall_mem_cons.2 ⟨hasLiteral_interchange hw, hasLiteral_interchangeEntries hfs⟩

end

theorem hasLiteral_mapM : ∀ {os : List (Text × Value)} {es : Entries},
    os.mapM (fun (k, v) => return (Value.text k, ← v.interchange)) = (.ok es : Outcome Entries) →
      ∀ e ∈ es, HasLiteral e.2
  | [], _, h => by
    cases h
    exact fun e he => absurd he List.not_mem_nil
  | (k, v) :: os, _, h => by
    rw [List.mapM_cons] at h
    obtain ⟨e, he, h⟩ := bind_eq_ok.1 h
    obtain ⟨w, hw, he⟩ := bind_eq_ok.1 he
    obtain ⟨es, hes, h⟩ := bind_eq_ok.1 h
    cases he
    cases h
    exact List.forall_mem_cons.2 ⟨hasLiteral_interchange hw, hasLiteral_mapM hes⟩

theorem hasLiteral_fields {p : Spec.Parameter} {fields : Entries} (h : p.fields = .ok fields) :
    ∀ e ∈ fields, HasLiteral e.2 := by
  unfold Spec.Parameter.fields at h
  obtain ⟨others, ho, h⟩ := bind_eq_ok.1 h
  cases h
  exact List.forall_mem_cons.2 ⟨⟨_, rfl⟩, List.forall_mem_cons.2 ⟨⟨_, rfl⟩, hasLiteral_mapM ho⟩⟩

/-- **A parameter whose fields can be given has an entry.** -/
theorem Entry.exists_of_fields {p : Spec.Parameter} {fields : Entries} (h : p.fields = .ok fields) :
    ∃ x : Entry, x.Of p := by
  obtain ⟨ws, hws⟩ := exists_literals (hasLiteral_fields h)
  exact Entry.exists_of h hws

/-- The entry of a parameter is the only one. -/
theorem Entry.Of.unique {p : Spec.Parameter} {x y : Entry} (hx : x.Of p) (hy : y.Of p) : x = y := by
  obtain ⟨hlx, hnx, fs, hfs, hx⟩ := hx
  obtain ⟨hly, hny, fs', hfs', hy⟩ := hy
  cases hfs.symm.trans hfs'
  have hfields : x.fields = y.fields := Except.ok.inj (hx.symm.trans hy)
  simp only [Entry.fields, List.cons.injEq] at hfields
  cases x
  cases y
  cases hlx.trans hly.symm
  cases hnx.trans hny.symm
  cases hfields.2.2
  rfl

/-! ## Entries in the array -/

namespace Entry

/-- An object that describes a parameter, with the entry in it: the first property of a key has the field, the
fields without a property come at the end. -/
def update (x : Entry) (n : Node) : Node :=
  match n.shape with
  | .object properties inline => n.withShape (.object
      (putEach (fun f => hasKey f.1) (fun f => withValue f.2) (fun f => .property f.1 f.2) x.fields properties) inline)
  | _ => n

theorem foldl_putField_eq {fs : List (Text × Node)} (hd : (fs.map (·.1)).Nodup) (properties : List Node) :
    fs.foldl (fun ps f => putField f.1 f.2 ps) properties =
      putEach (fun f => hasKey f.1) (fun f => withValue f.2) (fun f => .property f.1 f.2) fs properties := by
  simp only [putField_eq]
  refine foldl_putFirst (fun f _ n hn => (hasKey_withValue f.1 f.2 n).trans hn)
    (fun f _ => hasKey_property f.1 f.2) ?_
  exact (List.pairwise_map.1 hd).imp fun hne n hn => not_hasKey_of_ne hne hn

theorem withFields_eq {x : Entry} {n : Node} (h : x.query.finds n = true) : withFields x.fields n = x.update n := by
  obtain ⟨properties, inline, hs, -⟩ := finds_parameterEntry.1 h
  obtain ⟨l, s⟩ := n
  cases hs
  have hd : (x.fields.map (·.1)).Nodup := x.distinct
  rw [withFields_object, foldl_putField_eq hd]
  rfl

/-- What an entry is found by. -/
def identity (x : Entry) : Text × Text := (x.location, x.name)

theorem not_finds_of_ne {x y : Entry} (h : x.identity ≠ y.identity) {n : Node} (hn : x.query.finds n = true) :
    y.query.finds n = false :=
  FieldWrite.not_finds_of_ne (u := ⟨x.location, x.name, [], .literal .null⟩)
    (w := ⟨y.location, y.name, [], .literal .null⟩) h hn

theorem finds_withFields {x : Entry} : ∀ {fs : List (Text × Node)}, (∀ f ∈ fs, f ∈ x.fields) →
    ∀ {n : Node}, x.query.finds n = true → x.query.finds (withFields fs n) = true
  | [], _, _, h => h
  | f :: fs, hfs, n, h => by
    have hw := FieldWrite.finds_withField (w := ⟨x.location, x.name, f.1, f.2⟩) h
    rw [x.field_eq f (hfs f List.mem_cons_self)] at hw
    exact finds_withFields (fun g hg => hfs g (List.mem_cons_of_mem f hg)) hw

theorem finds_node (x : Entry) : x.query.finds x.node = true := by
  let w : FieldWrite := ⟨x.location, x.name, [], .literal .null⟩
  rw [← x.withFields_bare w rfl rfl]
  exact finds_withFields (fun _ hf => hf) w.finds_bare

end Entry

theorem putEntry_eq (elements : List Node) (x : Entry) :
    putEntry elements x = putFirst x.query.finds x.update x.node elements := by
  unfold putEntry putFirst
  split
  · exact alterFirst_congr fun n hn => Entry.withFields_eq (List.find?_some hn)
  · rfl

/-- **Entries of different parameters** are put into the array all at once. -/
theorem foldl_putEntry_eq_putEach {xs : List Entry} (hd : (xs.map Entry.identity).Nodup) (elements : List Node) :
    xs.foldl putEntry elements = putEach (fun x => x.query.finds) Entry.update Entry.node xs elements := by
  simp only [funext fun es => funext (putEntry_eq es)]
  refine foldl_putFirst (fun x _ n hn => ?_) (fun x _ => x.finds_node) ?_
  · rw [← Entry.withFields_eq hn]
    exact Entry.finds_withFields (fun _ hf => hf) hn
  · exact (List.pairwise_map.1 hd).imp fun hne n hn => Entry.not_finds_of_ne hne hn

/-- An entry that the array has stays there when one of another parameter is put there. -/
theorem putEntry_putEntry_of_ne {x y : Entry} (hne : x.identity ≠ y.identity) {elements : List Node}
    (h : putEntry elements x = elements) : putEntry (putEntry elements y) x = putEntry elements y := by
  have hkeep : ∀ (z : Entry) n, z.query.finds n = true → z.query.finds (withFields z.fields n) = true := fun z n hn =>
    Entry.finds_withFields (fun _ hf => hf) hn
  have hany : elements.any x.query.finds = true := by
    rw [← h]
    exact any_putFirst (hkeep x) x.finds_node elements
  conv => rhs; rw [← h]
  exact putFirst_comm (fun n hn => Entry.not_finds_of_ne hne hn)
    (fun n hn => Entry.not_finds_of_ne (Ne.symm hne) (hkeep y n hn))
    (fun n hn => Entry.not_finds_of_ne hne (hkeep x n hn)) hany

theorem putEntry_foldl_putEntry : ∀ {xs : List Entry} {elements : List Node}, (xs.map Entry.identity).Nodup →
    ∀ x, x ∈ xs ∨ x.identity ∉ xs.map Entry.identity ∧ putEntry elements x = elements →
      putEntry (xs.foldl putEntry elements) x = xs.foldl putEntry elements
  | [], _, _, _, h => (h.resolve_left List.not_mem_nil).2
  | y :: xs, elements, hd, x, h => by
    rw [List.map_cons, List.nodup_cons] at hd
    rw [List.foldl_cons]
    refine putEntry_foldl_putEntry hd.2 x ?_
    rw [List.mem_cons, List.map_cons, List.mem_cons, not_or] at h
    obtain (rfl | h) | ⟨⟨hne, hx⟩, h⟩ := h
    · exact .inr ⟨hd.1, foldl_putEntry_foldl_putEntry [x] elements⟩
    · exact .inl h
    · exact .inr ⟨hx, putEntry_putEntry_of_ne hne h⟩

/-- **Entries that the array has been given** can be put there again, any of them in any order. -/
theorem foldl_putEntry_absorb {xs : List Entry} (hd : (xs.map Entry.identity).Nodup) (elements : List Node) :
    ∀ {ys : List Entry}, (∀ y ∈ ys, y ∈ xs) →
      ys.foldl putEntry (xs.foldl putEntry elements) = xs.foldl putEntry elements
  | [], _ => rfl
  | y :: ys, h => by
    rw [List.foldl_cons, putEntry_foldl_putEntry hd y (.inl (h y List.mem_cons_self))]
    exact foldl_putEntry_absorb hd elements fun z hz => h z (List.mem_cons_of_mem y hz)

/-! ## The merge -/

/-- What a merge of parameters makes of the statements of an endpoint. -/
structure EntriesMerged (ps : List Spec.Parameter) (body body' : List Node) : Prop where
  /-- Of the statements, only the array changes, which is declared first of all where it is missing. -/
  frame : body' = declare (Collection.withMembers (collectionOf .array body') (collectionNode .array body)) body
  /-- The elements stay in their places.  The first object that describes a parameter has the literals of its
  fields, each in the first property of its key or in a new last one; the parameters without such an object come at
  the end. -/
  members : ∃ xs, List.Forall₂ Entry.Of ps xs ∧ collectionOf .array body' =
    putEach (fun x => x.query.finds) Entry.update Entry.node xs (collectionOf .array body)

theorem exists_entries : ∀ {ps : List Spec.Parameter}, (∀ p ∈ ps, ∃ fields, p.fields = .ok fields) →
    ∃ xs, List.Forall₂ Entry.Of ps xs
  | [], _ => ⟨[], .nil⟩
  | p :: ps, h => by
    obtain ⟨fields, hf⟩ := h p List.mem_cons_self
    obtain ⟨x, hx⟩ := Entry.exists_of_fields hf
    obtain ⟨xs, hxs⟩ := exists_entries fun q hq => h q (List.mem_cons_of_mem p hq)
    exact ⟨x :: xs, .cons hx hxs⟩

theorem map_identity {ps : List Spec.Parameter} {xs : List Entry} (h : List.Forall₂ Entry.Of ps xs) :
    xs.map Entry.identity = ps.map fun p => (p.location, p.name) := by
  induction h with
  | nil => rfl
  | cons hx _ ih =>
    rw [List.map_cons, List.map_cons, ih, Entry.identity, hx.1, hx.2.1]

theorem mem_entries {ps qs : List Spec.Parameter} {xs ys : List Entry} (hx : List.Forall₂ Entry.Of ps xs)
    (hy : List.Forall₂ Entry.Of qs ys) (h : ∀ q ∈ qs, q ∈ ps) : ∀ y ∈ ys, y ∈ xs := by
  intro y hys
  obtain ⟨q, hq, hqy⟩ := exists_of_forall₂ hy hys
  obtain ⟨x, hxs, hqx⟩ := exists_of_forall₂ hx.flip (h q hq)
  rw [hqy.unique hqx]
  exact hxs

/-- The first parameter whose fields cannot be given ends the merge. -/
theorem forM_putParameter_fails : ∀ {ps : List Spec.Parameter} {x : Failure},
    ps.mapM Spec.Parameter.fields = .error x → ∀ (elements : List Node) (l : List Record),
      ∃ elements', (ps.forM putParameter).runFrom elements l = ((.error x, elements'), l)
  | [], _, h, _, _ => by cases h
  | p :: ps, x, h, elements, l => by
    rw [List.mapM_cons] at h
    change ∃ elements', (putParameter p >>= fun _ => ps.forM putParameter).runFrom elements l = _
    cases hf : p.fields with
    | error y =>
      rw [hf] at h
      cases h
      refine ⟨elements, ?_⟩
      unfold putParameter
      rw [Edit.runFrom_bind, Edit.runFrom_bind, Edit.runFrom_ofOutcome, hf]
    | ok fields =>
      obtain ⟨e, he⟩ := Entry.exists_of_fields hf
      have hps : ps.mapM Spec.Parameter.fields = .error x := by
        rw [hf] at h
        cases hr : ps.mapM Spec.Parameter.fields with
        | error y => rw [hr] at h; cases h; rfl
        | ok fs => rw [hr] at h; cases h
      obtain ⟨elements', hrest⟩ := forM_putParameter_fails hps (putEntry elements e) l
      exact ⟨elements', by rw [Edit.runFrom_bind, putParameter_run he]; exact hrest⟩

/-- **A merge of different parameters into an array** puts the entry of each there, and merging some of them again,
in any order, changes nothing.  It fails when the fields of a parameter cannot be given, and only then. -/
theorem mergeEndpointParameters_merges {ps : List Spec.Parameter}
    (hd : (ps.map fun p => (p.location, p.name)).Nodup) (body : List Node) :
    match ps.mapM Spec.Parameter.fields with
    | .error x => ∃ body' logs, (mergeEndpointParameters ps).perform body = (body', .error x, logs)
    | .ok _ => ∃ body' logs, (mergeEndpointParameters ps).perform body = (body', .ok (), logs) ∧
        EntriesMerged ps body body' ∧ ∀ qs : List Spec.Parameter, (∀ q ∈ qs, q ∈ ps) →
          ∃ logs', (mergeEndpointParameters qs).perform body' = (body', .ok (), logs') := by
  cases hf : ps.mapM Spec.Parameter.fields with
  | error x =>
    obtain ⟨l, h⟩ := mergeEndpointParameters_run ps body []
    obtain ⟨elements', hfail⟩ := forM_putParameter_fails hf (membersOf .array body) l
    rw [hfail] at h
    exact ⟨_, l, by rw [Edit.perform_eq, h]⟩
  | ok fields =>
    have hok : ∀ p ∈ ps, ∃ fields, p.fields = .ok fields := exists_mapM_ok.1 ⟨fields, hf⟩
    obtain ⟨xs, hxs⟩ := exists_entries hok
    have hdx : (xs.map Entry.identity).Nodup := by rwa [map_identity hxs]
    have hmem := members?_collectionNode .array body
    obtain ⟨logs, hrun⟩ := (mergeEndpointParameters_gives hxs body).perform
    refine ⟨_, logs, hrun, ⟨?_, xs, hxs, ?_⟩, fun qs hqs => ?_⟩
    · rw [collectionOf_declare, members?_withMembers hmem]
      rfl
    · rw [collectionOf_declare, members?_withMembers hmem, foldl_putEntry_eq_putEach hdx, collectionOf_eq]
      rfl
    · obtain ⟨ys, hys⟩ := exists_entries fun q hq => hok q (hqs q hq)
      have habsorb := foldl_putEntry_absorb hdx (membersOf .array body) (mem_entries hxs hys hqs)
      exact (ArrayUpToDate.gives ⟨_, _, ys, init_declare _ body, members?_withMembers hmem _, hys, habsorb⟩).perform

/-- Statements whose array has an element that is no object, two objects that describe the same parameter, the
second one with a key twice, and an object that describes nothing. -/
def describedStatements : List Node := [
  .const "parameters" (.array [
    .identifier "shared",
    .object [.property "name" (.literal (.text "id")), .property "in" (.literal (.text "path")),
      .property "name" (.literal (.text "other"))],
    .object [.property "in" (.literal (.text "path")), .property "name" (.literal (.text "id"))],
    .object []]),
  .ofShape (.returns none)]

/-- Two parameters of one name. -/
def describedParameters : List Spec.Parameter := [
  { name := "id", location := "query", others := [("required", .bool true)] },
  { name := "id", location := "path", others := [("type", .text "string"), ("nested", .map [(.int 1, .null)])] }]

/-- Parameters are merged into an array with repeated descriptions. -/
theorem mergeEndpointParameters_merges_sample : (describedParameters.map fun p => (p.location, p.name)).Nodup ∧
    ∃ body' logs, (mergeEndpointParameters describedParameters).perform describedStatements = (body', .ok (), logs) ∧
      EntriesMerged describedParameters describedStatements body' ∧
      ∃ logs', (mergeEndpointParameters describedParameters.reverse).perform body' = (body', .ok (), logs') := by
  have hd : (describedParameters.map fun p => (p.location, p.name)).Nodup := by decide
  have hf : (describedParameters.mapM Spec.Parameter.fields).toBool = true := by decide +kernel
  have h := mergeEndpointParameters_merges hd describedStatements
  cases hr : describedParameters.mapM Spec.Parameter.fields with
  | error x => rw [hr] at hf; cases hf
  | ok fields =>
    rw [hr] at h
    obtain ⟨body', logs, hrun, hmerged, hagain⟩ := h
    exact ⟨hd, body', logs, hrun, hmerged, hagain _ fun q hq => List.mem_reverse.1 hq⟩

end ApiRoutes.Route
