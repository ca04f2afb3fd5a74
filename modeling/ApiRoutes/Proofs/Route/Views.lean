import ApiRoutes.Proofs.Printing
import ApiRoutes.Proofs.Route.UpToDate
import ApiRoutes.Proofs.Views
/-!
# What declarations say

The view of a declaration is what a merge looks at and what a reader sees of it: for the collections of
parameters the keys of the properties, what they are found by, and the texts of their values
(`fieldView`).  The views of what is written and of what is read of it are compared; where they are
the same, a merge of the endpoint into what was read changes nothing that can be seen.
-/
namespace ApiRoutes.Route

open Script

/-! ## Properties -/

/-- The texts of a value at the levels that it can stand at in a collection. -/
def textsOf (value : Node) : List (Outcome Text) := [1, 2, 3].map (expressionText · value)

/-- What is seen of a property. -/
structure FieldView where
  key : Text
  /-- The scalar by which an entry is found, for the keys that take part in that. -/
  scalar : Value
  /-- The access that the value is. -/
  access : Option Access
  texts : List (Outcome Text)
  deriving DecidableEq

/-- The scalar that a node is; nothing when it is none. -/
def scalarOf (n : Node) : Value :=
  match n.shape with
  | .literal v _ => v
  | _ => .null

/-- The access that a node is. -/
def accessOf? (n : Node) : Option Access :=
  match n.shape with
  | .access a => some a
  | _ => none

/-- What is seen of a property with this key and value. -/
def FieldView.of (key : Text) (value : Node) : FieldView where
  key
  scalar := if key = "in" ∨ key = "name" then scalarOf value else .null
  access := accessOf? value
  texts := textsOf value

/-- What is seen of an entry of an object; nothing unless it is a property. -/
def fieldView (n : Node) : Option FieldView :=
  match n.shape with
  | .property key value _ => some (.of key value)
  | _ => none

/-- What is seen of an element of the array; nothing unless it is an object. -/
def entryView (n : Node) : Option (List (Option FieldView)) :=
  match n.shape with
  | .object properties _ => some (properties.map fieldView)
  | _ => none

/-- An entry of an object without what is seen of it. -/
def fieldFrame (n : Node) : Node := withValue default n

/-- An element of the array without what is seen of it. -/
def entryFrame (n : Node) : Node :=
  match n.shape with
  | .object properties inline => n.withShape (.object (properties.map fieldFrame) inline)
  | _ => n

/-- The node is no property: nothing is seen of it, and nothing that is done to properties changes it. -/
structure NoProperty (n : Node) : Prop where
  view : fieldView n = none
  value : ∀ value, withValue value n = n
  key : ∀ key, hasKey key n = false
  tag : tagProperty n = n
  access : ∀ a, (accessQuery a).finds n = false

theorem property_or_not (n : Node) :
    (∃ l k v sh, n = .mk l (.property k v sh)) ∨ NoProperty n := by
  obtain ⟨l, s⟩ := n
  cases s with
  | property k v sh => exact .inl ⟨l, k, v, sh, rfl⟩
  | _ => exact .inr ⟨rfl, fun _ => rfl, fun _ => rfl, rfl, fun _ => rfl⟩

/-- Of two nodes of which the same is seen both are properties with the same key, or neither is one. -/
theorem fieldView_inj {a b : Node} (h : fieldView a = fieldView b) :
    (∃ l l' k v v' sh sh', a = .mk l (.property k v sh) ∧ b = .mk l' (.property k v' sh') ∧
      FieldView.of k v = FieldView.of k v') ∨ NoProperty a ∧ NoProperty b := by
  obtain ⟨l, k, v, sh, rfl⟩ | ha := property_or_not a <;>
    obtain ⟨l', k', v', sh', rfl⟩ | hb := property_or_not b
  · have hv : FieldView.of k v = FieldView.of k' v' := Option.some.inj h
    have hk : k = k' := congrArg FieldView.key hv
    subst hk
    exact .inl ⟨l, l', k, v, v', sh, sh', rfl, rfl, hv⟩
  · rw [hb.view] at h
    cases h
  · rw [ha.view] at h
    cases h
  · exact .inr ⟨ha, hb⟩

theorem hasKey_congr (key : Text) {a b : Node} (h : fieldView a = fieldView b) :
    hasKey key a = hasKey key b := by
  obtain ⟨_, _, _, _, _, _, _, rfl, rfl, -⟩ | ⟨ha, hb⟩ := fieldView_inj h
  · rfl
  · rw [ha.key, hb.key]

theorem fieldView_withValue (value : Node) {a b : Node} (h : fieldView a = fieldView b) :
    fieldView (withValue value a) = fieldView (withValue value b) := by
  obtain ⟨_, _, _, _, _, _, _, rfl, rfl, -⟩ | ⟨ha, hb⟩ := fieldView_inj h
  · rfl
  · rw [ha.value, hb.value, h]

/-- What is written for the value of a property. -/
def fieldTexts (n : Node) : Option (List (Outcome Text)) := (fieldView n).map (·.texts)

theorem entryAlike_of_frame {a b : Node} {level : Nat} (hl : level = 1 ∨ level = 2)
    (hf : fieldFrame a = fieldFrame b) (ht : fieldTexts a = fieldTexts b) : EntryAlike level a b := by
  obtain ⟨l, k, v, sh, rfl⟩ | ha := property_or_not a <;>
    obtain ⟨l', k', v', sh', rfl⟩ | hb := property_or_not b
  · cases hf
    replace ht : textsOf v = textsOf v' := Option.some.inj ht
    simp only [textsOf, List.map_cons, List.map_nil, List.cons.injEq, and_true] at ht
    obtain ⟨h₁, h₂, h₃⟩ := ht
    obtain rfl | rfl := hl
    · exact .value h₁ h₂
    · exact .value h₂ h₃
  · rw [fieldTexts, fieldTexts, hb.view] at ht
    cases ht
  · rw [fieldTexts, fieldTexts, ha.view] at ht
    cases ht
  · rw [fieldFrame, fieldFrame, ha.value, hb.value] at hf
    rw [hf]
    exact .refl b

/-! ## The array of an endpoint -/

/-- The node is no object: nothing is seen of it, and nothing that is done to entries changes it. -/
structure NoObject (n : Node) : Prop where
  view : entryView n = none
  frame : entryFrame n = n
  field : ∀ f, withField f n = n
  entry : ∀ location name, (Query.parameterEntry location name).finds n = false

theorem object_or_not (n : Node) : (∃ l ps inline, n = .mk l (.object ps inline)) ∨ NoObject n := by
  obtain ⟨l, s⟩ := n
  cases s with
  | object ps inline => exact .inl ⟨l, ps, inline, rfl⟩
  | _ => exact .inr ⟨rfl, rfl, fun _ => rfl, fun _ _ => rfl⟩

theorem entryView_inj {a b : Node} (h : entryView a = entryView b) :
    (∃ l l' ps qs inline inline', a = .mk l (.object ps inline) ∧ b = .mk l' (.object qs inline') ∧
      ps.map fieldView = qs.map fieldView) ∨ NoObject a ∧ NoObject b := by
  obtain ⟨l, ps, inline, rfl⟩ | ha := object_or_not a <;>
    obtain ⟨l', qs, inline', rfl⟩ | hb := object_or_not b
  · exact .inl ⟨l, l', ps, qs, inline, inline', rfl, rfl, Option.some.inj h⟩
  · rw [hb.view] at h
    cases h
  · rw [ha.view] at h
    cases h
  · exact .inr ⟨ha, hb⟩

theorem scalarAt_of_find? {key k : Text} {ps : List Node} {l : Layout} {v : Node} {sh : Bool}
    (h : ps.find? (hasKey key) = some (.mk l (.property k v sh))) :
    Node.scalarAt key ps = scalarOf v := by
  rw [Node.scalarAt, isProperty_eq, h]
  obtain ⟨lv, sv⟩ := v
  cases sv <;> rfl

theorem scalarAt_congr {key : Text} (hk : key = "in" ∨ key = "name") {ps qs : List Node}
    (h : ps.map fieldView = qs.map fieldView) : Node.scalarAt key ps = Node.scalarAt key qs := by
  have hfind := map_find?_congr (fun _ _ => hasKey_congr key) h
  cases ha : ps.find? (hasKey key) with
  | none =>
    rw [ha] at hfind
    rw [Node.scalarAt, Node.scalarAt, isProperty_eq, ha, Option.map_eq_none_iff.1 hfind.symm]
  | some a =>
    rw [ha] at hfind
    obtain ⟨b, hb, hab⟩ := Option.map_eq_some_iff.1 hfind.symm
    obtain ⟨l, l', k, v, v', sh, sh', rfl, rfl, hv⟩ | ⟨-, hnb⟩ := fieldView_inj hab.symm
    · obtain ⟨_, _, hs⟩ := hasKey_iff.1 (List.find?_some ha)
      cases hs
      have hscalar := congrArg FieldView.scalar hv
      simp only [FieldView.of, if_pos hk] at hscalar
      rw [scalarAt_of_find? ha, scalarAt_of_find? hb, hscalar]
    · have hkb := List.find?_some hb
      rw [hnb.key] at hkb
      cases hkb

theorem finds_congr (location name : Text) {a b : Node} (h : entryView a = entryView b) :
    (Query.parameterEntry (.text location) (.text name)).finds a =
      (Query.parameterEntry (.text location) (.text name)).finds b := by
  obtain ⟨_, _, ps, qs, _, _, rfl, rfl, hv⟩ | ⟨ha, hb⟩ := entryView_inj h
  · simp only [Query.finds, Node.shape, scalarAt_congr (.inl rfl) hv, scalarAt_congr (.inr rfl) hv]
  · rw [ha.entry, hb.entry]

theorem map_putField_congr (key : Text) (value : Node) {ps qs : List Node}
    (h : ps.map fieldView = qs.map fieldView) :
    (putField key value ps).map fieldView = (putField key value qs).map fieldView := by
  rw [putField_eq, putField_eq]
  exact map_putFirst_congr (f := fieldView) (fun _ _ => hasKey_congr key)
    (fun _ _ _ _ => fieldView_withValue value) h

theorem entryView_withField (f : Text × Node) {a b : Node} (h : entryView a = entryView b) :
    entryView (withField f a) = entryView (withField f b) := by
  obtain ⟨_, _, ps, qs, _, _, rfl, rfl, hv⟩ | ⟨ha, hb⟩ := entryView_inj h
  · exact congrArg some (map_putField_congr f.1 f.2 hv)
  · rw [ha.field, hb.field, h]

namespace FieldWrite

theorem map_put_congr (w : FieldWrite) {es es' : List Node} (h : es.map entryView = es'.map entryView) :
    (w.put es).map entryView = (w.put es').map entryView :=
  map_putFirst_congr (f := entryView) (fun _ _ => finds_congr w.location w.name)
    (fun _ _ _ _ => entryView_withField w.field) h

theorem Present.congr {place : (Text × Text) × Text} {es es' : List Node}
    (h : es.map entryView = es'.map entryView) (hp : Present place es) : Present place es' := by
  obtain ⟨l, ps, inline, hfind, hkey⟩ := hp
  have hview := map_find?_congr (fun _ _ => finds_congr place.1.1 place.1.2) h
  rw [hfind] at hview
  obtain ⟨b, hb, hab⟩ := Option.map_eq_some_iff.1 hview.symm
  obtain ⟨_, l', ps', qs, _, inline', ha, rfl, hv⟩ | ⟨ha, -⟩ := entryView_inj hab.symm
  · cases ha
    exact ⟨l', qs, inline', hb, any_congr (fun _ _ => hasKey_congr place.2) hv ▸ hkey⟩
  · have hfound := List.find?_some hfind
    rw [ha.entry] at hfound
    cases hfound

/-- Writing to a field that is there cannot be seen in the frame. -/
theorem map_entryFrame_put {w : FieldWrite} {es : List Node} (h : Present w.place es) :
    (w.put es).map entryFrame = es.map entryFrame := by
  obtain ⟨l, ps, inline, hfind, hkey⟩ := h
  change es.find? w.query.finds = _ at hfind
  rw [put, putFirst_of_any (any_of_find? hfind)]
  refine map_alterFirst_of_find? fun x hx => ?_
  rw [hfind, Option.some.injEq] at hx
  subst hx
  have hframe : (putField w.key w.field.2 ps).map fieldFrame = ps.map fieldFrame := by
    rw [putField_eq, putFirst_of_any (show ps.any (hasKey w.key) = true from hkey)]
    exact map_alterFirst (f := fieldFrame) (fun n _ => withValue_withValue default w.field.2 n) ps
  exact congrArg (fun ps => Node.mk l (.object ps inline)) hframe

theorem map_foldl_congr : ∀ {ws : List FieldWrite} {es es' : List Node},
    es.map entryView = es'.map entryView →
      (ws.foldl (fun es w => w.put es) es).map entryView =
        (ws.foldl (fun es w => w.put es) es').map entryView
  | [], _, _, h => h
  | w :: ws, _, _, h => by
    rw [List.foldl_cons, List.foldl_cons]
    exact map_foldl_congr (map_put_congr w h)

theorem map_entryFrame_foldl : ∀ {ws : List FieldWrite} {es : List Node},
    (∀ w ∈ ws, Present w.place es) →
      (ws.foldl (fun es w => w.put es) es).map entryFrame = es.map entryFrame
  | [], _, _ => rfl
  | w :: ws, es, h => by
    rw [List.foldl_cons, map_entryFrame_foldl fun u hu => (h u (List.mem_cons_of_mem w hu)).put w,
      map_entryFrame_put (h w List.mem_cons_self)]

end FieldWrite

theorem elementAlike_of_frame {a b : Node} (hf : entryFrame a = entryFrame b)
    (hv : entryView a = entryView b) : ElementAlike 1 a b := by
  obtain ⟨l, l', ps, qs, inline, inline', rfl, rfl, hview⟩ | ⟨ha, hb⟩ := entryView_inj hv
  · have hs := congrArg Node.shape hf
    have hl : l = l' := congrArg Node.layout hf
    simp only [entryFrame, Node.shape, Node.withShape, Shape.object.injEq] at hs
    obtain ⟨hframe, hi⟩ := hs
    subst hl
    subst hi
    have htexts : ps.map fieldTexts = qs.map fieldTexts := by
      have h := congrArg (List.map (Option.map FieldView.texts)) hview
      rwa [List.map_map, List.map_map] at h
    exact .entries (forall₂_of_map_eq (fun _ _ => entryAlike_of_frame (.inl rfl)) hframe htexts)
      (forall₂_of_map_eq (fun _ _ => entryAlike_of_frame (.inr rfl)) hframe htexts)
  · rw [ha.frame, hb.frame] at hf
    rw [hf]
    exact .refl b

/-- **Entries that are put into an array of which the same is seen** as of one that has them leave its
elements alike. -/
theorem elementsAlike_foldl_putEntry {xs : List Entry} {ms ns : List Node}
    (hfix : xs.foldl putEntry ms = ms) (hv : ns.map entryView = ms.map entryView) :
    List.Forall₂ (ElementAlike 1) ns (xs.foldl putEntry ns) := by
  have hw := foldl_putEntry_eq xs
  rw [hw] at hfix
  rw [hw]
  refine forall₂_of_map_eq (fun _ _ => elementAlike_of_frame) (FieldWrite.map_entryFrame_foldl
    fun w h => ?_).symm ?_
  · have hp := FieldWrite.writes.written_foldl (s := ms) (List.mem_map_of_mem h)
    rw [hfix] at hp
    exact hp.congr hv.symm
  · rw [FieldWrite.map_foldl_congr hv, hfix, hv]

/-! ## The object of a handler -/

/-- What is seen of a member of the object. -/
structure MemberView where
  /-- What the member is recognised as. -/
  tagged : Option FieldView
  /-- How it is written. -/
  texts : Option (List (Outcome Text))
  deriving DecidableEq

/-- What is seen of a member of the object. -/
def memberView (n : Node) : MemberView := ⟨fieldView (tagProperty n), fieldTexts n⟩

theorem finds_property_eq (a : Access) (l : Layout) (key : Text) (value : Node) (shorthand : Bool) :
    (accessQuery a).finds (.mk l (.property key value shorthand)) =
      (accessOf? value).any fun b => key == a.name && b.location == a.location := by
  obtain ⟨lv, sv⟩ := value
  cases sv with
  | access b => simp [accessQuery, Query.finds, accessOf?, Node.shape, sameValue_text]
  | _ => rfl

theorem accessQuery_congr (a : Access) {m n : Node} (h : fieldView m = fieldView n) :
    (accessQuery a).finds m = (accessQuery a).finds n := by
  obtain ⟨l, l', k, v, v', sh, sh', rfl, rfl, hv⟩ | ⟨hm, hn⟩ := fieldView_inj h
  · have haccess : accessOf? v = accessOf? v' := congrArg FieldView.access hv
    rw [finds_property_eq, finds_property_eq, haccess]
  · rw [hm.access, hn.access]

theorem fieldFrame_tagProperty (n : Node) : fieldFrame (tagProperty n) = fieldFrame n := by
  obtain ⟨l, k, v, sh, rfl⟩ | hn := property_or_not n
  · cases sh <;> rfl
  · rw [hn.tag]

theorem map_putAccess_congr (a : Access) {ms ns : List Node} (h : ms.map fieldView = ns.map fieldView) :
    (putAccess ms a).map fieldView = (putAccess ns a).map fieldView := by
  rw [putAccess_eq, putAccess_eq]
  exact map_putFirst_congr (f := fieldView) (fun _ _ => accessQuery_congr a)
    (fun _ _ _ _ => fieldView_withValue (.access a)) h

/-- Accesses that are put into an object of which the same is seen as of one that has them change
nothing that is seen, and no more than values. -/
theorem foldl_putAccess_views {ms : List Node} : ∀ {as : List Access} {ns : List Node},
    (∀ a ∈ as, Settled a ms) → ns.map fieldView = ms.map fieldView →
      (as.foldl putAccess ns).map fieldView = ms.map fieldView ∧
        (as.foldl putAccess ns).map fieldFrame = ns.map fieldFrame
  | [], _, _, h => ⟨h, rfl⟩
  | a :: as, ns, hs, h => by
    have ha := hs a List.mem_cons_self
    have hput : (putAccess ns a).map fieldView = ms.map fieldView := by
      rw [map_putAccess_congr a h, ha.putAccess_eq]
    obtain ⟨hv, hf⟩ := foldl_putAccess_views (fun b hb => hs b (List.mem_cons_of_mem a hb)) hput
    refine ⟨hv, hf.trans ?_⟩
    obtain ⟨m, hm, -⟩ := ha
    have hany : ms.any (accessQuery a).finds = true :=
      any_of_find? hm
    rw [← any_congr (fun _ _ => accessQuery_congr a) h] at hany
    rw [putAccess_eq, putFirst_of_any hany]
    exact map_alterFirst (f := fieldFrame)
      (fun n _ => withValue_withValue default (.access a) n) ns

/-- **Accesses that are put into an object of which the same is seen** as of one that has them leave its
entries alike. -/
theorem entriesAlike_readingMembers {request : Text} {accesses : List Access} {ms ns : List Node}
    (hr : ∀ a ∈ accesses, a.request = request) (hfix : readingMembers accesses ms = ms)
    (hv : ns.map memberView = ms.map memberView) :
    List.Forall₂ (EntryAlike 2) ns (readingMembers accesses ns) := by
  have hsettled : ∀ a ∈ accesses, Settled a ms := fun a ha => by
    rw [← hfix]
    exact settled_foldl_putAccess _ hr a (.inl ha)
  have htag : ms.map tagProperty = ms := by
    rw [← hfix, map_tagProperty_readingMembers]
  have htagged : (ns.map tagProperty).map fieldView = ms.map fieldView := by
    have h := congrArg (List.map MemberView.tagged) hv
    rw [List.map_map, List.map_map] at h
    change ns.map (fieldView ∘ tagProperty) = ms.map (fieldView ∘ tagProperty) at h
    rwa [← List.map_map, ← List.map_map, htag] at h
  have htexts : ns.map fieldTexts = ms.map fieldTexts := by
    have h := congrArg (List.map MemberView.texts) hv
    rwa [List.map_map, List.map_map] at h
  obtain ⟨hviews, hframes⟩ := foldl_putAccess_views hsettled htagged
  refine forall₂_of_map_eq (fun _ _ => entryAlike_of_frame (.inr rfl)) ?_ ?_
  · refine Eq.trans ?_ hframes.symm
    rw [List.map_map]
    exact (List.map_congr_left fun n _ => fieldFrame_tagProperty n).symm
  · have h := congrArg (List.map (Option.map FieldView.texts)) hviews
    rw [List.map_map, List.map_map] at h
    exact htexts.trans h.symm

end ApiRoutes.Route
