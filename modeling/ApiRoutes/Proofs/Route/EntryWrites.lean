import ApiRoutes.Proofs.Route.Entries
import ApiRoutes.Proofs.Writes
/-!
# Entries as writes

An entry that is put into the array as a sequence of writes to its fields (`Entry.foldl_writes`), and
from that: putting entries into the array again changes nothing (`foldl_putEntry_foldl_putEntry`),
also where several of them have the same location and name.
-/
namespace ApiRoutes.Route

open Script

/-- A value for one field of an entry. -/
structure FieldWrite where
  location : Text
  name : Text
  key : Text
  value : Node

namespace FieldWrite

/-- What is written; the fields that an entry is found by keep their values. -/
def field (w : FieldWrite) : Text × Node :=
  (w.key, if w.key = "name" then .literal (.text w.name)
    else if w.key = "in" then .literal (.text w.location) else w.value)

def query (w : FieldWrite) : Query := .parameterEntry (.text w.location) (.text w.name)

/-- A new object for the entry, with the fields that it is found by. -/
def bare (w : FieldWrite) : Node :=
  .object [.property "name" (.literal (.text w.name)), .property "in" (.literal (.text w.location))]

/-- The elements with the field written. -/
def put (w : FieldWrite) (elements : List Node) : List Node :=
  putFirst w.query.finds (withField w.field) (withField w.field w.bare) elements

/-- The place that is written to. -/
def place (w : FieldWrite) : (Text × Text) × Text := ((w.location, w.name), w.key)

/-- The first entry of a parameter has the field. -/
def Present (place : (Text × Text) × Text) (elements : List Node) : Prop :=
  ∃ l ps inline, elements.find? (Query.parameterEntry (.text place.1.1) (.text place.1.2)).finds =
    some (.mk l (.object ps inline)) ∧ ps.any (hasKey place.2) = true

theorem field_of_name {w : FieldWrite} (h : w.key = "name") :
    w.field = (("name" : Text), .literal (.text w.name)) := by
  rw [field, if_pos h, h]

theorem field_of_in {w : FieldWrite} (h : w.key = "in") :
    w.field = (("in" : Text), .literal (.text w.location)) := by
  rw [field, if_neg (by rw [h]; decide), if_pos h, h]

theorem finds_withField {w : FieldWrite} {n : Node} (h : w.query.finds n = true) :
    w.query.finds (withField w.field n) = true := by
  obtain ⟨ps, inline, hs, hin, hname⟩ := finds_parameterEntry.1 h
  obtain ⟨l, s⟩ := n
  cases hs
  refine finds_parameterEntry.2 ⟨_, inline, rfl, ?_, ?_⟩
  · by_cases hk : w.key = "in"
    · rw [field_of_in hk, scalarAt_putField_self]
    · exact (scalarAt_putField (Ne.symm hk) _ ps).trans hin
  · by_cases hk : w.key = "name"
    · rw [field_of_name hk, scalarAt_putField_self]
    · exact (scalarAt_putField (Ne.symm hk) _ ps).trans hname

theorem finds_bare (w : FieldWrite) : w.query.finds w.bare = true :=
  finds_parameterEntry.2 ⟨_, _, rfl, rfl, rfl⟩

theorem not_finds_of_ne {u w : FieldWrite} (h : u.place.1 ≠ w.place.1) {n : Node}
    (hn : u.query.finds n = true) : w.query.finds n = false := by
  rw [Bool.eq_false_iff]
  intro hn'
  obtain ⟨ps, inline, hs, hin, hname⟩ := finds_parameterEntry.1 hn
  obtain ⟨ps', inline', hs', hin', hname'⟩ := finds_parameterEntry.1 hn'
  rw [hs] at hs'
  cases hs'
  rw [hin, Value.text.injEq] at hin'
  rw [hname, Value.text.injEq] at hname'
  exact h (by rw [place, place, hin', hname'])

theorem withField_withField {f g : Text × Node} (h : f.1 = g.1) (n : Node) :
    withField f (withField g n) = withField f n := by
  obtain ⟨l, s⟩ := n
  cases s with
  | object ps inline =>
    change Node.mk l (.object (putField f.1 f.2 (putField g.1 g.2 ps)) inline) = _
    rw [h, putField_putField, ← h]
    rfl
  | _ => rfl

theorem find?_put (w : FieldWrite) (elements : List Node) :
    (w.put elements).find? w.query.finds =
      some (withField w.field ((elements.find? w.query.finds).getD w.bare)) := by
  rw [put, find?_putFirst (fun x hx => finds_withField hx) (finds_withField w.finds_bare)]
  cases elements.find? w.query.finds <;> rfl

theorem find?_put_of_ne {u w : FieldWrite} (h : u.place.1 ≠ w.place.1) (elements : List Node) :
    (w.put elements).find? u.query.finds = elements.find? u.query.finds := by
  have hwu := fun x => not_finds_of_ne (Ne.symm h) (n := x)
  exact find?_putFirst_of_disjoint hwu (fun x hx => hwu _ (finds_withField hx))
    (hwu _ (finds_withField w.finds_bare)) elements

theorem put_put {u w : FieldWrite} (h : u.place = w.place) (elements : List Node) :
    u.put (w.put elements) = u.put elements := by
  obtain ⟨⟨hl, hn⟩, hk⟩ : (u.location = w.location ∧ u.name = w.name) ∧ u.key = w.key := by
    simpa [place] using h
  have hq : u.query = w.query := by rw [query, query, hl, hn]
  have hb : u.bare = w.bare := by rw [bare, bare, hl, hn]
  rw [put, put, put, hq, hb]
  exact putFirst_putFirst (fun x hx => finds_withField hx) (finds_withField w.finds_bare)
    (fun x _ => withField_withField hk x) (withField_withField hk w.bare) elements

theorem put_comm {u w : FieldWrite} (h : u.place ≠ w.place) {elements : List Node}
    (hu : Present u.place elements) : u.put (w.put elements) = w.put (u.put elements) := by
  obtain ⟨l, ps, inline, hfind, hkey⟩ := hu
  change elements.find? u.query.finds = _ at hfind
  have hany : elements.any u.query.finds = true := any_of_find? hfind
  by_cases hp : u.place.1 = w.place.1
  · obtain ⟨hl, hn⟩ : u.location = w.location ∧ u.name = w.name := by simpa [place] using hp
    have hq : w.query = u.query := by rw [query, query, hl, hn]
    have hk : u.key ≠ w.key := fun hk => h (by rw [place, place, hl, hn, hk])
    have hkeep : ∀ v : FieldWrite, v.query = u.query → ∀ x, u.query.finds x = true →
        u.query.finds (withField v.field x) = true := fun v hv x hx => by
      rw [← hv] at hx ⊢
      exact finds_withField hx
    rw [put, put, put, put, hq, putFirst_of_any hany, putFirst_of_any hany, putFirst_of_any,
      putFirst_of_any, alterFirst_alterFirst (hkeep w hq), alterFirst_alterFirst (hkeep u rfl)]
    · refine alterFirst_congr fun x hx => ?_
      rw [hfind, Option.some.injEq] at hx
      subst hx
      exact congrArg (fun ps => Node.mk l (.object ps inline))
        (putField_comm hk u.field.2 w.field.2 hkey)
    · rw [any_alterFirst fun x hx => by rw [hkeep u rfl x hx, hx], hany]
    · rw [any_alterFirst fun x hx => by rw [hkeep w hq x hx, hx], hany]
  · refine putFirst_comm (fun x hx => not_finds_of_ne hp hx) (fun x hx => ?_) (fun x hx => ?_) hany
    · exact not_finds_of_ne (Ne.symm hp) (finds_withField hx)
    · exact not_finds_of_ne hp (finds_withField hx)

theorem present_put (w : FieldWrite) (elements : List Node) : Present w.place (w.put elements) := by
  have h := find?_put w elements
  obtain ⟨ps, inline, hs⟩ : ∃ ps inline,
      ((elements.find? w.query.finds).getD w.bare).shape = .object ps inline := by
    cases hf : elements.find? w.query.finds with
    | none => exact ⟨_, _, rfl⟩
    | some n =>
      obtain ⟨ps, inline, hs, -⟩ := finds_parameterEntry.1 (List.find?_some hf)
      exact ⟨ps, inline, hs⟩
  rcases hn : (elements.find? w.query.finds).getD w.bare with ⟨l, s⟩
  rw [hn] at h hs
  cases hs
  exact ⟨l, _, inline, h, any_putField _ _ ps⟩

theorem Present.put {place : (Text × Text) × Text} {elements : List Node} (h : Present place elements)
    (w : FieldWrite) : Present place (w.put elements) := by
  obtain ⟨l, ps, inline, hfind, hkey⟩ := h
  by_cases hp : place.1 = w.place.1
  · have hq : Query.parameterEntry (.text place.1.1) (.text place.1.2) = w.query := by
      rw [hp]
      rfl
    rw [hq] at hfind
    have h := find?_put w elements
    rw [hfind, ← hq] at h
    exact ⟨l, _, inline, h, any_putField_of_any _ hkey⟩
  · refine ⟨l, ps, inline, ?_, hkey⟩
    have h := find?_put_of_ne (u := ⟨place.1.1, place.1.2, place.2, w.value⟩) hp elements
    exact h.trans hfind

/-- **Fields are places to write to.** -/
theorem writes : Writes put place Present where
  overwrite := fun _ _ s h => put_put h s
  commute := fun _ _ _ h hs => put_comm h hs
  written := present_put
  stays := fun _ w _ h => h.put w

end FieldWrite

namespace Entry

/-- The writes that an entry consists of. -/
def writes (x : Entry) : List FieldWrite := x.fields.map fun f => ⟨x.location, x.name, f.1, f.2⟩

theorem field_eq (x : Entry) : ∀ f ∈ x.fields,
    (⟨x.location, x.name, f.1, f.2⟩ : FieldWrite).field = f := by
  intro f hf
  have hd := x.distinct
  simp only [List.nodup_cons, List.mem_cons, not_or] at hd
  simp only [fields, List.mem_cons] at hf
  obtain rfl | rfl | hf := hf
  · exact FieldWrite.field_of_name rfl
  · exact FieldWrite.field_of_in rfl
  · have hk : f.1 ∈ x.others.map (·.1) := List.mem_map_of_mem hf
    have hname : f.1 ≠ "name" := fun h => hd.1.2 (h ▸ hk)
    have hin : f.1 ≠ "in" := fun h => hd.2.1 (h ▸ hk)
    rw [FieldWrite.field, if_neg hname, if_neg hin]

theorem foldl_put_of_any {x : Entry} : ∀ {fs : List (Text × Node)} {elements : List Node},
    (∀ f ∈ fs, f ∈ x.fields) → elements.any x.query.finds = true →
      (fs.map fun f => (⟨x.location, x.name, f.1, f.2⟩ : FieldWrite)).foldl (fun es w => w.put es)
        elements = alterFirst x.query.finds (withFields fs) elements
  | [], elements, _, _ => (alterFirst_id elements).symm
  | f :: fs, elements, hfs, h => by
    have hf := x.field_eq f (hfs f List.mem_cons_self)
    have hkeep : ∀ n, x.query.finds n = true → x.query.finds (withField f n) = true := fun n hn => by
      have hw := FieldWrite.finds_withField (w := ⟨x.location, x.name, f.1, f.2⟩) hn
      rwa [hf] at hw
    have hput : (⟨x.location, x.name, f.1, f.2⟩ : FieldWrite).put elements =
        alterFirst x.query.finds (withField f) elements := by
      rw [FieldWrite.put, hf]
      exact putFirst_of_any h
    rw [List.map_cons, List.foldl_cons, hput, foldl_put_of_any
      (fun g hg => hfs g (List.mem_cons_of_mem f hg))
      (by rw [any_alterFirst fun n hn => by rw [hkeep n hn, hn], h]), alterFirst_alterFirst hkeep]
    rfl

theorem foldl_putField_append : ∀ {fs : List (Text × Node)} {properties : List Node},
    (fs.map (·.1)).Nodup → (∀ f ∈ fs, properties.any (hasKey f.1) = false) →
      fs.foldl (fun ps f => putField f.1 f.2 ps) properties =
        properties ++ fs.map fun f => Node.property f.1 f.2
  | [], properties, _, _ => (List.append_nil properties).symm
  | f :: fs, properties, hd, h => by
    rw [List.map_cons, List.nodup_cons] at hd
    rw [List.foldl_cons, putField_eq, putFirst_of_not_any (h f List.mem_cons_self),
      foldl_putField_append hd.2 fun g hg => ?_, List.append_assoc, List.map_cons, List.singleton_append]
    have hne : f.1 ≠ g.1 := fun he => hd.1 (he ▸ List.mem_map_of_mem hg)
    rw [List.any_append, h g (List.mem_cons_of_mem f hg), Bool.false_or, List.any_cons, List.any_nil,
      Bool.or_false, not_hasKey_of_ne hne (hasKey_property f.1 f.2)]

theorem withFields_bare (x : Entry) (w : FieldWrite) (hl : w.location = x.location)
    (hn : w.name = x.name) : withFields x.fields w.bare = x.node := by
  have hd := x.distinct
  rw [List.nodup_cons, List.nodup_cons] at hd
  change withFields x.others (withFields [_, _] w.bare) = _
  have hbare : withFields [("name", .literal (.text x.name)), ("in", .literal (.text x.location))]
      w.bare = w.bare := by
    rw [FieldWrite.bare, hl, hn]
    rfl
  rw [hbare, FieldWrite.bare, Node.object, Node.ofShape, withFields_object,
    foldl_putField_append hd.2.2 fun f hf => ?_, hl, hn]
  · rfl
  · have hk : f.1 ∈ x.others.map (·.1) := List.mem_map_of_mem hf
    have hname : "name" ≠ f.1 := fun h => hd.1 (List.mem_cons_of_mem _ (h ▸ hk))
    have hin : "in" ≠ f.1 := fun h => hd.2.1 (h ▸ hk)
    simp [not_hasKey_of_ne hname (hasKey_property _ _), not_hasKey_of_ne hin (hasKey_property _ _)]

/-- **An entry is put into the array field by field.** -/
theorem foldl_writes (x : Entry) (elements : List Node) :
    x.writes.foldl (fun es w => w.put es) elements = putEntry elements x := by
  let w : FieldWrite := ⟨x.location, x.name, "name", .literal (.text x.name)⟩
  have hw : w.put elements = putFirst x.query.finds (withField w.field) (withField w.field w.bare)
      elements := rfl
  have hkeep : ∀ n, x.query.finds n = true → x.query.finds (withField w.field n) = true :=
    fun n hn => FieldWrite.finds_withField (w := w) hn
  have hbare : x.query.finds (withField w.field w.bare) = true := hkeep _ w.finds_bare
  change ((_ :: x.others).map fun f => (⟨x.location, x.name, f.1, f.2⟩ : FieldWrite)).foldl
    (fun es w => w.put es) (w.put elements) = _
  rw [foldl_put_of_any (fun f hf => List.mem_cons_of_mem _ hf) (by rw [hw, any_putFirst hkeep hbare]),
    hw, alterFirst_putFirst hkeep hbare, putEntry, ← x.withFields_bare w rfl rfl]
  rfl

end Entry

theorem foldl_putEntry_eq (xs : List Entry) (elements : List Node) : xs.foldl putEntry elements =
    (xs.flatMap Entry.writes).foldl (fun es w => w.put es) elements := by
  rw [List.foldl_flatMap]
  congr 1
  funext es x
  exact (x.foldl_writes es).symm

/-- **Putting entries into the array again** changes nothing. -/
theorem foldl_putEntry_foldl_putEntry (xs : List Entry) (elements : List Node) :
    xs.foldl putEntry (xs.foldl putEntry elements) = xs.foldl putEntry elements := by
  rw [foldl_putEntry_eq, foldl_putEntry_eq, FieldWrite.writes.foldl_foldl]

end ApiRoutes.Route
