import ApiRoutes.Proofs.Route.EndpointParameters
import ApiRoutes.Proofs.Route.PlainModules
/-!
# Fields in the file

Where the fields of parameters are after the parameters were merged into the array of a plain module and the module
was written and read again (`mergedFields_read`).  A field is read as its value, unless the object that describes the
parameter has the key in shorthand: what is written then is the key alone.
-/
namespace ApiRoutes.Route

open Script

variable {key : Text} {value n n' : Node} {v : Value} {x : Entry} {fs : List (Text × Node)} {f : Text × Node}
  {properties body ms : List Node} {level : Nat}

/-! ## What is written of a merge -/

/-- A property with another value, as far as the value is written. -/
def writtenValue (value n : Node) : Node :=
  match n.shape with
  | .property k _ false => n.withShape (.property k value false)
  | _ => n

theorem entryAlike_writtenValue (value n : Node) : EntryAlike level (withValue value n) (writtenValue value n) := by
  obtain ⟨l, s⟩ := n
  cases s with
  | property k w shorthand =>
    cases shorthand with
    | false => exact .refl _
    | true => exact .shorthand value w
  | _ => exact .refl _

theorem hasKey_writtenValue (key : Text) (value n : Node) : hasKey key (writtenValue value n) = hasKey key n := by
  obtain ⟨l, s⟩ := n
  cases s with
  | property k w shorthand => cases shorthand <;> rfl
  | _ => rfl

/-- Properties with fields, as far as these are written. -/
def writtenFields (fs : List (Text × Node)) (properties : List Node) : List Node :=
  putEach (fun f => hasKey f.1) (fun f => writtenValue f.2) (fun f => .property f.1 f.2) fs properties

/-- An object that describes a parameter with the entry in it, as far as the fields are written. -/
def Entry.written (x : Entry) (n : Node) : Node :=
  match n.shape with
  | .object properties inline => n.withShape (.object (writtenFields x.fields properties) inline)
  | _ => n

theorem elementAlike_written (x : Entry) (n : Node) : ElementAlike level (x.update n) (x.written n) := by
  obtain ⟨l, s⟩ := n
  cases s with
  | object properties inline =>
    exact .entries (forall₂_putEach EntryAlike.refl fun f _ n _ => entryAlike_writtenValue f.2 n)
      (forall₂_putEach EntryAlike.refl fun f _ n _ => entryAlike_writtenValue f.2 n)
  | _ => exact .refl _

/-- The array with entries, as far as their fields are written. -/
def writtenArray (xs : List Entry) (elements : List Node) : List Node :=
  putEach (fun x => x.query.finds) Entry.written Entry.node xs elements

theorem elementsAlike_writtenArray (xs : List Entry) (elements : List Node) : List.Forall₂ (ElementAlike level)
    (putEach (fun x => x.query.finds) Entry.update Entry.node xs elements) (writtenArray xs elements) :=
  forall₂_putEach ElementAlike.refl fun x _ n _ => elementAlike_written x n

/-! ## Finding fields and entries -/

theorem find?_writtenFields (hd : (fs.map (·.1)).Nodup) (hf : f ∈ fs) (properties : List Node) :
    (writtenFields fs properties).find? (hasKey f.1) =
      some (((properties.find? (hasKey f.1)).map (writtenValue f.2)).getD (.property f.1 f.2)) := by
  refine find?_putEach (fun f _ n hn => (hasKey_writtenValue f.1 f.2 n).trans hn) (fun f _ => hasKey_property f.1 f.2)
    ?_ hf
  exact (List.pairwise_map.1 hd).imp fun hne n hn => not_hasKey_of_ne hne hn

/-- A field that an object is found by keeps its text. -/
theorem scalarAt_writtenFields {t : Text} (hd : (fs.map (·.1)).Nodup) (hf : (key, .literal (.text t)) ∈ fs)
    (h : Node.scalarAt key properties = .text t) : Node.scalarAt key (writtenFields fs properties) = .text t := by
  have hfind := find?_writtenFields hd hf properties
  dsimp only at hfind
  rw [Node.scalarAt, isProperty_eq] at h ⊢
  rw [hfind]
  cases hz : properties.find? (hasKey key) with
  | none => rfl
  | some z =>
    rw [hz] at h
    obtain ⟨w, shorthand, hs⟩ := hasKey_iff.1 (List.find?_some hz)
    obtain ⟨l, s⟩ := z
    cases hs
    cases shorthand with
    | true => exact h
    | false => rfl

theorem Entry.finds_written (h : x.query.finds n = true) : x.query.finds (x.written n) = true := by
  obtain ⟨properties, inline, hs, hin, hname⟩ := finds_parameterEntry.1 h
  obtain ⟨l, s⟩ := n
  cases hs
  have hd : (x.fields.map (·.1)).Nodup := x.distinct
  exact finds_parameterEntry.2 ⟨_, inline, rfl, scalarAt_writtenFields hd (by simp [fields]) hin,
    scalarAt_writtenFields hd (by simp [fields]) hname⟩

theorem find?_writtenArray {xs : List Entry} (hd : (xs.map Entry.identity).Nodup) (hx : x ∈ xs) (elements : List Node) :
    (writtenArray xs elements).find? x.query.finds =
      some (((elements.find? x.query.finds).map x.written).getD x.node) := by
  refine find?_putEach (p := fun x => x.query.finds) (fun x _ n hn => Entry.finds_written hn) (fun x _ => x.finds_node)
    ?_ hx
  exact (List.pairwise_map.1 hd).imp fun hne n hn => Entry.not_finds_of_ne hne hn

/-! ## Plain arrays stay plain -/

/-- The field is written as a key and a literal that is read as the value. -/
structure Carries (f : Text × Node) (v : Value) : Prop where
  key : isPlainKey f.1 = true
  value : Represents f.2 v

theorem Carries.plain_property (h : Carries f v) : plainEntries [.property f.1 f.2] = true := by
  change plainEntries [⟨{}, .property f.1 f.2 false⟩] = true
  rw [plainEntries, h.key, h.value.bare, h.value.goesBy, h.value.plain]
  rfl

theorem Carries.plain_writtenValue (h : Carries f v) (hn : plainEntries [n] = true) :
    plainEntries [writtenValue f.2 n] = true := by
  obtain ⟨l, s⟩ := n
  cases s with
  | property k w shorthand =>
    cases shorthand with
    | true => exact hn
    | false =>
      change plainEntries [⟨l, .property k f.2 false⟩] = true
      rw [plainEntries] at hn ⊢
      simp only [Bool.and_eq_true] at hn
      rw [hn.1.1.1.1.1, hn.1.1.1.1.2, h.value.bare, h.value.goesBy, h.value.plain]
      rfl
  | _ => exact hn

theorem plain_writtenFields (hfs : ∀ f ∈ fs, ∃ v, Carries f v) (h : plainEntries properties = true) :
    plainEntries (writtenFields fs properties) = true := by
  refine plainEntries_iff.2 fun n hn => ?_
  obtain hn | ⟨f, hf, m, hm, rfl⟩ | ⟨f, hf, rfl⟩ := mem_putEach hn
  · exact plainEntries_iff.1 h n hn
  · obtain ⟨v, hv⟩ := hfs f hf
    exact hv.plain_writtenValue (plainEntries_iff.1 h m (List.mem_of_find?_eq_some hm))
  · obtain ⟨v, hv⟩ := hfs f hf
    exact hv.plain_property

theorem Entry.node_eq (x : Entry) : x.node = ⟨{}, .object (writtenFields x.fields []) false⟩ := by
  rw [writtenFields, putEach_nil]
  rfl

theorem plain_node (hfs : ∀ f ∈ x.fields, ∃ v, Carries f v) : plainExpression x.node = true := by
  rw [x.node_eq]
  exact plain_writtenFields hfs rfl

theorem plain_written (hfs : ∀ f ∈ x.fields, ∃ v, Carries f v) (h : plainExpression n = true) :
    plainExpression (x.written n) = true := by
  obtain ⟨l, s⟩ := n
  cases s with
  | object properties inline => exact plain_writtenFields hfs h
  | _ => exact h

theorem layout_written (x : Entry) (n : Node) : (x.written n).layout = n.layout := by
  obtain ⟨l, s⟩ := n
  cases s <;> rfl

theorem plain_writtenArray {xs : List Entry} (hxs : ∀ x ∈ xs, ∀ f ∈ x.fields, ∃ v, Carries f v)
    (h : plainElements ms = true) : plainElements (writtenArray xs ms) = true := by
  refine plainElements_iff.2 fun n hn => ?_
  obtain hn | ⟨x, hx, m, hm, rfl⟩ | ⟨x, hx, rfl⟩ := mem_putEach hn
  · exact plainElements_iff.1 h n hn
  · obtain ⟨hl, hplain⟩ := plainElements_iff.1 h m (List.mem_of_find?_eq_some hm)
    exact ⟨by rw [layout_written, hl], plain_written (hxs x hx) hplain⟩
  · exact ⟨rfl, plain_node (hxs x hx)⟩

/-! ## Fields -/

theorem literals_carry : ∀ {es : Entries} {ws : List (Text × Node)}, carriedEntries es = true → literals es = .ok ws →
    List.Forall₂ (fun e w => e.1 = .text w.1 ∧ Carries w e.2) es ws
  | [], _, _, h => by
    cases h
    exact .nil
  | (key, v) :: es, _, hcarried, h => by
    obtain ⟨k, rfl⟩ : ∃ k, key = .text k := by cases key <;> first | exact ⟨_, rfl⟩ | cases hcarried
    rw [carriedEntries, Bool.and_eq_true, Bool.and_eq_true] at hcarried
    obtain ⟨n, hn, hv⟩ := value_represented hcarried.1.2
    rw [literals] at h
    obtain ⟨m, hm, h⟩ := bind_eq_ok.1 h
    obtain ⟨ws, hws, h⟩ := bind_eq_ok.1 h
    cases hn.symm.trans hm
    cases h
    exact .cons ⟨rfl, hcarried.1.1, hv⟩ (literals_carry hcarried.2 hws)

/-- Is the property one that is written as its key alone? -/
def isShorthand (n : Node) : Bool :=
  match n.shape with
  | .property _ _ shorthand => shorthand
  | _ => false

/-- Does the object have the key in shorthand? -/
def inShorthand (key : Text) (n : Node) : Bool :=
  match n.shape with
  | .object properties _ => (properties.find? (hasKey key)).any isShorthand
  | _ => false

/-- The data that the object has under the key. -/
def fieldValue? (key : Text) (n : Node) : Option Value :=
  match n.shape with
  | .object properties _ => (properties.find? (hasKey key)).bind fun f =>
    match f.shape with
    | .property _ value _ => valueOf? value
    | _ => none
  | _ => none

/-- A property in shorthand is no data. -/
theorem valueOf?_shorthand {l : Layout} {k : Text} {w w' : Node} (h : plainEntries [⟨l, .property k w true⟩] = true)
    (hr : w.ReadsAs w') : valueOf? w' = none := by
  obtain ⟨m, s⟩ := w
  cases s with
  | identifier y =>
    cases hr with
    | mk _ _ hs =>
      cases hs with
      | identifier => rfl
  | _ => cases h

/-- **A field of an object is read back as its value**, unless the object has its key in shorthand. -/
theorem fieldValue?_again {l : Layout} {inline : Bool} (hd : (fs.map (·.1)).Nodup) (hf : f ∈ fs) (hv : Carries f v)
    (hplain : plainEntries properties = true)
    (hr : (Node.mk l (.object (writtenFields fs properties) inline)).ReadsAs n') :
    fieldValue? f.1 n' = if (properties.find? (hasKey f.1)).any isShorthand then none else some v := by
  have hfind := find?_writtenFields hd hf properties
  cases hr with
  | mk _ _ hs =>
    cases hs with
    | object hps =>
      obtain ⟨z, hz, hr⟩ := rel_find? (p := hasKey f.1) (fun _ _ => hasKey_again) hps hfind
      rw [fieldValue?, Node.shape]
      dsimp only
      rw [hz, Option.bind_some]
      cases hy : properties.find? (hasKey f.1) with
      | none =>
        rw [hy] at hr
        obtain ⟨m, w', rfl, hw⟩ := property_again hr
        exact hv.value.read w' hw
      | some y =>
        rw [hy] at hr
        obtain ⟨w, shorthand, hs⟩ := hasKey_iff.1 (List.find?_some hy)
        obtain ⟨l', s⟩ := y
        cases hs
        cases shorthand with
        | true =>
          obtain ⟨m, w', rfl, hw⟩ := property_again hr
          exact valueOf?_shorthand (plainEntries_iff.1 hplain _ (List.mem_of_find?_eq_some hy)) hw
        | false =>
          obtain ⟨m, w', rfl, hw⟩ := property_again hr
          exact hv.value.read w' hw

/-! ## The merge -/

variable {p r : Program} {g : Function} {xs : List Entry} {ps : List Spec.Parameter}

/-- The elements of the array that the exported function declares. -/
def exportedArray (p : Program) : List Node := collectionOf .array (routeBody p)

/-- The first object of an array that describes a parameter. -/
def description? (q : Spec.Parameter) (elements : List Node) : Option Node :=
  elements.find? (Query.parameterEntry (.text q.location) (.text q.name)).finds

theorem description?_of_entry {q : Spec.Parameter} (hx : x.Of q) (elements : List Node) :
    description? q elements = elements.find? x.query.finds := by
  rw [description?, Entry.query, hx.1, hx.2.1]

/-- The object of an entry has the fields, and is read back with them. -/
theorem Entry.field_again {elements : List Node} (hplain : plainElements elements = true)
    (hr : (((elements.find? x.query.finds).map x.written).getD x.node).ReadsAs n') (hf : f ∈ x.fields) (hv : Carries f v) :
    fieldValue? f.1 n' = if (elements.find? x.query.finds).any (inShorthand f.1) then none else some v := by
  have hd : (x.fields.map (·.1)).Nodup := x.distinct
  cases hn : elements.find? x.query.finds with
  | none =>
    rw [hn, Option.map_none, Option.getD_none, x.node_eq] at hr
    exact fieldValue?_again hd hf hv rfl hr
  | some n =>
    rw [hn] at hr
    obtain ⟨properties, inline, hs, -⟩ := finds_parameterEntry.1 (List.find?_some hn)
    obtain ⟨l, s⟩ := n
    cases hs
    exact fieldValue?_again hd hf hv (plainElements_iff.1 hplain _ (List.mem_of_find?_eq_some hn)).2 hr

/-- The statements with the entries in their array. -/
def mergedBody (xs : List Entry) (body : List Node) : List Node :=
  declare (Collection.withMembers (xs.foldl putEntry (membersOf .array body)) (collectionNode .array body)) body

/-- The statements with the entries in their array, as far as their fields are written. -/
def writtenBody (xs : List Entry) (body : List Node) : List Node :=
  declare (Collection.withMembers (writtenArray xs (membersOf .array body)) (collectionNode .array body)) body

theorem exists_collectionNode (body : List Node) :
    ∃ l inline, collectionNode .array body = ⟨l, .array (membersOf .array body) inline⟩ := by
  have hmem := members?_collectionNode .array body
  generalize collectionNode .array body = c at hmem ⊢
  obtain ⟨l, s⟩ := c
  cases s with
  | array es inline =>
    cases hmem
    exact ⟨l, inline, rfl⟩
  | _ => cases hmem

/-- Statements that were merged are written as these. -/
theorem alike_writtenBody (hd : (xs.map Entry.identity).Nodup) (body : List Node) :
    List.Forall₂ (Alike level) (mergedBody xs body) (writtenBody xs body) := by
  obtain ⟨l, inline, hc⟩ := exists_collectionNode body
  refine alike_declare_of_text ?_ body
  rw [foldl_putEntry_eq_putEach hd, hc]
  exact arrayText_congr inline (elementsAlike_writtenArray xs _)

theorem plain_writtenBody (hxs : ∀ x ∈ xs, ∀ f ∈ x.fields, ∃ v, Carries f v) (h : plainStatements body = true) :
    plainStatements (writtenBody xs body) = true := by
  obtain ⟨l, inline, hc⟩ := exists_collectionNode body
  obtain ⟨hbare, hplain⟩ := plain_collectionNode .array h
  rw [hc] at hbare hplain
  rw [writtenBody, hc]
  exact plain_declare h hbare (plain_writtenArray hxs hplain)

theorem init_writtenBody (xs : List Entry) (body : List Node) : ∃ l inline,
    (declaration? (writtenBody xs body)).bind (·.init) = some ⟨l, .array (writtenArray xs (membersOf .array body)) inline⟩ := by
  obtain ⟨l, inline, hc⟩ := exists_collectionNode body
  refine ⟨l, inline, ?_⟩
  rw [writtenBody, hc]
  exact init_declare _ body

theorem routeBody_of_exported (hg : exported? p.body = some g) : routeBody p = g.body := by
  rw [routeBody, hg]
  rfl

theorem exported?_withRouteBody_of_some (hg : exported? p.body = some g) (body : List Node) :
    exported? (withRouteBody body p).body = some { g with body } := by
  rw [exported?_withRouteBody, exported?_withExport_of_some hg]
  rfl

theorem render_mergedBody (hg : exported? p.body = some g) (hd : (xs.map Entry.identity).Nodup) :
    (withRouteBody (mergedBody xs (routeBody p)) p).render = (withRouteBody (writtenBody xs (routeBody p)) p).render := by
  have h := render_withRouteBody (exported?_withRouteBody_of_some hg _) (alike_writtenBody hd (routeBody p))
  rw [withRouteBody_withRouteBody] at h
  exact h.symm

theorem plain_exportedArray (h : plainStatements (routeBody p) = true) : plainElements (exportedArray p) = true := by
  obtain ⟨l, inline, hc⟩ := exists_collectionNode (routeBody p)
  have hplain := (plain_collectionNode .array h).2
  rw [hc] at hplain
  rw [exportedArray, collectionOf_eq]
  exact hplain

/-- **The array is read back from the file** with what its elements are read back as. -/
theorem exportedArray_again (hg : exported? p.body = some g)
    (h : List.Forall₂ Node.ReadsAs (withRouteBody (writtenBody xs (routeBody p)) p).body r.body) :
    List.Forall₂ Node.ReadsAs (writtenArray xs (exportedArray p)) (exportedArray r) := by
  obtain ⟨g', hg', hbody⟩ := exported?_again h (exported?_withRouteBody_of_some hg _)
  obtain ⟨l, inline, hinit⟩ := init_writtenBody xs (routeBody p)
  rw [exportedArray, exportedArray, routeBody_of_exported hg', collectionOf_eq]
  exact arrayOf_again hbody hinit

/-- Elements with entries in them are read back with the fields of each parameter. -/
theorem fields_again {q : Spec.Parameter} {elements elements' : List Node}
    (hd : (xs.map Entry.identity).Nodup) (hx : x ∈ xs) (hof : x.Of q) (hplain : plainElements elements = true)
    (hr : List.Forall₂ Node.ReadsAs (writtenArray xs elements) elements') : ∃ n, description? q elements' = some n ∧
      ∀ fields, q.fields = .ok fields → carriedEntries fields = true → ∀ k v, (.text k, v) ∈ fields →
        fieldValue? k n = if (description? q elements).any (inShorthand k) then none else some v := by
  rw [description?_of_entry hof, description?_of_entry hof]
  obtain ⟨n, hn, hread⟩ := rel_find? (p := x.query.finds) (fun _ _ => finds_parameterEntry_again) hr
    (find?_writtenArray hd hx elements)
  refine ⟨n, hn, fun fields hfields hcarried k v hkv => ?_⟩
  obtain ⟨-, -, fields', hfields', hliterals⟩ := hof
  cases hfields.symm.trans hfields'
  obtain ⟨f, hf, hkey, hv⟩ := exists_of_forall₂ (literals_carry hcarried hliterals).flip hkv
  cases hkey
  exact Entry.field_again hplain hread hf hv

/-- Merges parameters into the array that a module exports, writes the module and reads it again. -/
def mergedAndRead (ps : List Spec.Parameter) (path : Option Text) (p : Program) : Outcome Program := do
  let (p', result, _) := (onExport path (onBody (mergeEndpointParameters ps))).perform p
  result
  Program.parse (← p'.render) path

/-- A module whose array describes a parameter, with a field in shorthand. -/
def describingModule : Text :=
  "export default function pets() \x7b\n    const parameters = [\x7b 'in': 'query', name: 'id', type \x7d];\n\x7d\n"

/-- The parameter with a type. -/
def typedParameter : Spec.Parameter := { name := "id", location := "query", others := [("type", .text "integer")] }

end ApiRoutes.Route
