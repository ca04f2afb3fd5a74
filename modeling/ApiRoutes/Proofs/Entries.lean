import ApiRoutes.Value
import Mathlib.Data.List.Induction
import Mathlib.Data.List.Nodup
/-!
# Entries of mappings

What putting a value at a key does to the keys, to look-ups and to every entry (`keys_insert`, `lookup?_insert_of_ne`,
`forall_insert`), and what a mapping that is made of entries has of them (`forall_ofEntries`, `holds_ofEntries`).
-/
namespace ApiRoutes.Value

variable {k v key : Value} {t : Text} {es : Entries}

/-- There are entries of the key, and all of them have the value. -/
structure Holds (key value : Value) (es : Entries) : Prop where
  present : hasKey key es = true
  only : ∀ e ∈ es, sameValue e.1 key = true → e.2 = value

/-! ## Keys -/

theorem sameValue_text {v : Value} : sameValue v (.text t) = true ↔ v = .text t := by
  cases v <;> simp [sameValue, number?]

theorem text_sameValue {v : Value} : sameValue (.text t) v = true ↔ v = .text t := by
  rw [eq_comm (a := v)]
  cases v <;> simp [sameValue]

theorem sameValue_text_of_ne {t' : Text} (h : t ≠ t') : sameValue (.text t) (.text t') = false := by
  rw [Bool.eq_false_iff, ne_eq, sameValue_text, Value.text.injEq]
  exact h

theorem hasKey_text : hasKey (.text t) es = true ↔ ∃ v, (.text t, v) ∈ es := by
  simp only [hasKey, List.any_eq_true, sameValue_text]
  constructor
  · rintro ⟨⟨k, v⟩, he, rfl⟩
    exact ⟨v, he⟩
  · rintro ⟨v, he⟩
    exact ⟨_, he, rfl⟩

theorem hasKey_append (key : Value) (es fs : Entries) : hasKey key (es ++ fs) = (hasKey key es || hasKey key fs) :=
  List.any_append

theorem lookup?_eq_none_iff : lookup? key es = none ↔ hasKey key es = false := by
  rw [lookup?, Option.map_eq_none_iff, List.find?_eq_none, hasKey, List.any_eq_false]

theorem mem_of_lookup? (h : lookup? key es = some v) : ∃ k, (k, v) ∈ es := by
  obtain ⟨e, he, rfl⟩ := Option.map_eq_some_iff.1 h
  exact ⟨e.1, List.mem_of_find?_eq_some he⟩

theorem Holds.lookup? (h : Holds key v es) : lookup? key es = some v := by
  cases hfind : es.find? fun e => sameValue e.1 key with
  | none =>
    have := h.present
    rw [lookup?_eq_none_iff.1 (by rw [Value.lookup?, hfind]; rfl)] at this
    cases this
  | some e =>
    have hsame : sameValue e.1 key = true := List.find?_some (p := fun e : Value × Value => sameValue e.1 key) hfind
    rw [Value.lookup?, hfind, Option.map_some, h.only e (List.mem_of_find?_eq_some hfind) hsame]

theorem Holds.of_mem (h : (.text t, v) ∈ es) (hkeys : (es.map Prod.fst).Nodup) : Holds (.text t) v es := by
  refine ⟨hasKey_text.2 ⟨v, h⟩, fun e he hsame => ?_⟩
  have heq : e = (.text t, v) := List.inj_on_of_nodup_map hkeys he h (sameValue_text.1 hsame)
  rw [heq]

/-! ## Insertion -/

theorem keys_insert (k v : Value) (es : Entries) :
    (insert k v es).map Prod.fst = es.map Prod.fst ++ if hasKey k es then [] else [k] := by
  unfold insert
  split
  · rw [List.map_map, List.append_nil]
    refine List.map_congr_left fun e _ => ?_
    dsimp only [Function.comp_apply]
    split <;> rfl
  · rw [List.map_append]
    rfl

/-- Every entry after an insertion is an old one, perhaps with the new value, or the new one. -/
theorem mem_insert {e : Value × Value} (h : e ∈ insert k v es) :
    (∃ e' ∈ es, e.1 = e'.1 ∧ e.2 = if sameValue e'.1 k then v else e'.2) ∨ e = (k, v) := by
  unfold insert at h
  split at h
  · obtain ⟨e', he', rfl⟩ := List.mem_map.1 h
    refine .inl ⟨e', he', ?_⟩
    split <;> exact ⟨rfl, rfl⟩
  · rename_i hnone
    rcases List.mem_append.1 h with h | h
    · refine .inl ⟨e, h, rfl, ?_⟩
      rw [if_neg]
      exact fun hsame => hnone (List.any_eq_true.2 ⟨e, h, hsame⟩)
    · exact .inr (List.mem_singleton.1 h)

theorem forall_insert {P Q : Value → Prop} (h : ∀ e ∈ es, P e.1 ∧ Q e.2) (hk : P k) (hv : Q v) :
    ∀ e ∈ insert k v es, P e.1 ∧ Q e.2 := by
  intro e he
  rcases mem_insert he with ⟨e', he', hkey, hvalue⟩ | rfl
  · rw [hkey, hvalue]
    refine ⟨(h e' he').1, ?_⟩
    split
    · exact hv
    · exact (h e' he').2
  · exact ⟨hk, hv⟩

theorem hasKey_insert (k v : Value) (t : Text) (es : Entries) :
    hasKey (.text t) (insert k v es) = (hasKey (.text t) es || sameValue k (.text t)) := by
  have hkeys (fs : Entries) : hasKey (.text t) fs = (fs.map Prod.fst).any fun k => sameValue k (.text t) := by
    rw [List.any_map]
    rfl
  rw [hkeys, keys_insert, List.any_append, ← hkeys]
  split
  · rename_i hk
    cases hsame : sameValue k (.text t) with
    | false => rfl
    | true =>
      rw [sameValue_text.1 hsame] at hk
      rw [hk]
      rfl
  · simp

theorem holds_insert (hk : sameValue k k = true) (v : Value) (es : Entries) : Holds k v (insert k v es) := by
  constructor
  · unfold insert
    split
    · rename_i hpresent
      obtain ⟨e, he, hsame⟩ := List.any_eq_true.1 hpresent
      refine List.any_eq_true.2 ⟨(e.1, v), List.mem_map.2 ⟨e, he, ?_⟩, hsame⟩
      rw [if_pos hsame]
    · exact List.any_eq_true.2 ⟨(k, v), List.mem_append_right es (List.mem_singleton_self _), hk⟩
  · intro e he hsame
    rcases mem_insert he with ⟨e', -, hkey, hvalue⟩ | rfl
    · rw [hvalue, if_pos (hkey ▸ hsame)]
    · rfl

theorem Holds.insert_eq (h : Holds k v es) : insert k v es = es := by
  rw [insert, if_pos h.present]
  refine (List.map_congr_left fun e he => ?_).trans (List.map_id es)
  split
  · rename_i hsame
    exact Prod.ext rfl (h.only e he hsame).symm
  · rfl

theorem Holds.insert_of_ne {t' : Text} (h : Holds (.text t) v es) (hne : t ≠ t') (w : Value) :
    Holds (.text t) v (insert (.text t') w es) := by
  constructor
  · rw [hasKey_insert, h.present]
    rfl
  · intro e he hsame
    rcases mem_insert he with ⟨e', he', hkey, hvalue⟩ | rfl
    · rw [hkey] at hsame
      rw [hvalue, sameValue_text.1 hsame, if_neg, h.only e' he' hsame]
      exact fun heq => hne (Value.text.inj (sameValue_text.1 heq))
    · exact absurd (Value.text.inj (sameValue_text.1 hsame)).symm hne

/-- Putting a value at one key leaves another key alone. -/
theorem lookup?_insert_of_ne (h : sameValue (.text t) key = false) (v : Value) (es : Entries) :
    lookup? key (insert (.text t) v es) = lookup? key es := by
  unfold lookup? insert
  split
  · rw [List.find?_map, Option.map_map]
    have hfind : ((fun e : Value × Value => sameValue e.1 key) ∘ fun e => if sameValue e.1 (.text t) then (e.1, v) else e) =
        fun e => sameValue e.1 key := by
      funext e
      dsimp only [Function.comp_apply]
      split <;> rfl
    rw [hfind]
    cases he : es.find? fun e => sameValue e.1 key with
    | none => rfl
    | some e =>
      have hsame : sameValue e.1 key = true := List.find?_some (p := fun e : Value × Value => sameValue e.1 key) he
      have hother : ¬ sameValue e.1 (.text t) = true := fun heq => by
        rw [sameValue_text.1 heq, h] at hsame
        cases hsame
      rw [Option.map_some, Option.map_some, Function.comp_apply, if_neg hother]
  · rw [List.find?_append, List.find?_singleton, if_neg (by rw [h]; exact Bool.false_ne_true), Option.or_none]

/-! ## Mappings made of entries -/

theorem ofEntries_concat (es : Entries) (e : Value × Value) : ofEntries (es ++ [e]) = insert e.1 e.2 (ofEntries es) := by
  rw [ofEntries, List.foldl_append]
  rfl

theorem forall_ofEntries {P Q : Value → Prop} (h : ∀ e ∈ es, P e.1 ∧ Q e.2) : ∀ e ∈ ofEntries es, P e.1 ∧ Q e.2 := by
  induction es using List.reverseRecOn with
  | nil => nofun
  | append_singleton es e ih =>
    obtain ⟨hes, he⟩ := List.forall_mem_append.1 h
    obtain ⟨hkey, hvalue⟩ := he e (List.mem_singleton_self e)
    rw [ofEntries_concat]
    exact forall_insert (ih hes) hkey hvalue

theorem hasKey_ofEntries (t : Text) (es : Entries) : hasKey (.text t) (ofEntries es) = hasKey (.text t) es := by
  induction es using List.reverseRecOn with
  | nil => rfl
  | append_singleton es e ih =>
    rw [ofEntries_concat, hasKey_insert, hasKey_append, ih]
    simp [hasKey]

theorem holds_ofEntries (h : Holds (.text t) v es) : Holds (.text t) v (ofEntries es) := by
  refine ⟨(hasKey_ofEntries t es).trans h.present, ?_⟩
  replace h := h.only
  induction es using List.reverseRecOn with
  | nil => nofun
  | append_singleton es e ih =>
    obtain ⟨hes, he⟩ := List.forall_mem_append.1 h
    have ih := ih hes
    have he := he e (List.mem_singleton_self e)
    intro x hx hsame
    rw [ofEntries_concat] at hx
    rcases mem_insert hx with ⟨e', he', hkey, hvalue⟩ | rfl
    · rw [hkey] at hsame
      rw [hvalue]
      split
      · rename_i hnew
        rw [sameValue_text.1 hsame, text_sameValue] at hnew
        exact he (sameValue_text.2 hnew)
      · exact ih e' he' hsame
    · exact he hsame

end ApiRoutes.Value
