import Mathlib.Data.List.Induction
import ApiRoutes.Proofs.Outcomes
import ApiRoutes.Proofs.Project.Preparation
/-!
# What a check finds

All generated files are checked at once, but what is found wrong with one is a matter of its name and of its text
alone (`invalidFiles_reason`), where of several texts for one path the last one counts (`mem_textsByPath`).  So the
check of a generation gives each result a verdict of its own (`checkedFiles_eq_ok`).
-/
namespace ApiRoutes.Project

/-! ## One file -/

/-- The format that the name of a file ends in. -/
def formatOf? (name : Text) : Option Format := [Format.script, .yaml, .json].find? fun f => f.isOf name

/-- What is wrong with a file. -/
def reasonOf (name content : Text) : Outcome (Option Text) :=
  match formatOf? name with
  | some f => f.reason name content
  | none => .ok none

/-- The last letter of the endings of a format. -/
def Format.letter : Format → CodePoint
  | .script => .scalar 's'
  | .yaml => .scalar 'l'
  | .json => .scalar 'n'

theorem getLast?_of_endsWith {name ending : Text} {c : CodePoint} (h : Text.endsWith name ending = true)
    (hc : ending.getLast? = some c) : name.getLast? = some c := by
  rw [← List.head?_reverse] at hc ⊢
  unfold Text.endsWith Text.startsWith at h
  cases hp : ending.reverse with
  | nil =>
    rw [hp] at hc
    cases hc
  | cons e p =>
    rw [hp] at h hc
    cases hc
    cases ht : name.reverse with
    | nil =>
      rw [ht] at h
      cases h
    | cons t rest =>
      rw [ht, Text.dropLead?] at h
      split at h
      · simp_all
      · cases h

theorem Format.getLast?_of_isOf {f : Format} {name : Text} (h : f.isOf name = true) : name.getLast? = some f.letter := by
  unfold Format.isOf at h
  rw [List.any_eq_true] at h
  obtain ⟨e, he, hends⟩ := h
  refine getLast?_of_endsWith hends ?_
  cases f <;> simp only [Format.endings, List.mem_cons, List.not_mem_nil, or_false] at he
  · subst he; decide
  · obtain rfl | rfl := he <;> decide
  · subst he; decide

/-- The name of a file ends in one format at most. -/
theorem formatOf?_eq_some {f : Format} {name : Text} : formatOf? name = some f ↔ f.isOf name = true := by
  constructor
  · intro h
    simpa using List.find?_some h
  · intro h
    have hsame : ∀ g : Format, g.isOf name = true → g = f := fun g hg => by
      have hletters := (Format.getLast?_of_isOf hg).symm.trans (Format.getLast?_of_isOf h)
      revert hletters
      cases f <;> cases g <;> decide
    obtain ⟨g, hg⟩ : ∃ g, formatOf? name = some g := by
      rw [← Option.isSome_iff_exists, formatOf?, List.find?_isSome]
      exact ⟨f, by cases f <;> simp, h⟩
    rw [hg, hsame g (by simpa using List.find?_some hg)]

/-! ## All files -/

variable {f : Format} {files : List (Text × Text)} {faults : List (Text × Text)} {t : Text × Text}

theorem reasons_eq_ok : f.reasons files = .ok faults ↔ ∃ found,
    List.Forall₂ (fun t o => (do return (← f.reason t.1 t.2).map fun r => (t.1, r)) = Except.ok (ε := Failure) o)
      (files.filter fun t => f.isOf t.1) found ∧ faults = found.filterMap id := by
  unfold Format.reasons
  simp only [bind_eq_ok, mapM_eq_ok]
  exact exists_congr fun found => and_congr_right fun _ => ⟨fun h => (Except.ok.inj h).symm, fun h => h ▸ rfl⟩

theorem exists_reasons_ok : (∃ faults, f.reasons files = .ok faults) ↔
    ∀ t ∈ files, f.isOf t.1 = true → ∃ r, f.reason t.1 t.2 = .ok r := by
  simp only [reasons_eq_ok, ← mapM_eq_ok]
  constructor
  · rintro ⟨faults, found, hfound, -⟩ t ht hf
    obtain ⟨o, ho⟩ := exists_mapM_ok.1 ⟨found, hfound⟩ t (List.mem_filter.2 ⟨ht, hf⟩)
    obtain ⟨r, hr, -⟩ := bind_eq_ok.1 ho
    exact ⟨r, hr⟩
  · intro h
    obtain ⟨found, hfound⟩ := exists_mapM_ok.2 fun t (ht : t ∈ files.filter fun t => f.isOf t.1) => by
      obtain ⟨r, hr⟩ := h t (List.mem_filter.1 ht).1 (List.mem_filter.1 ht).2
      exact ⟨r.map fun r => (t.1, r), bind_eq_ok.2 ⟨r, hr, rfl⟩⟩
    exact ⟨_, found, hfound, rfl⟩

theorem reasonFor?_append (name : Text) (fs gs : List (Text × Text)) :
    reasonFor? name (fs ++ gs) = (reasonFor? name fs).or (reasonFor? name gs) := by
  unfold reasonFor?
  rw [List.find?_append]
  cases fs.find? fun f => f.1 == name <;> rfl

section Found

variable {g : Text × Text → Outcome (Option Text)} {ts : List (Text × Text)} {found : List (Option (Text × Text))}
  (h : List.Forall₂ (fun t o => (do return (← g t).map fun r => (t.1, r)) = Except.ok (ε := Failure) o) ts found)

include h

/-- Nothing is found wrong with a file that was not looked at. -/
theorem reasonFor?_of_not_mem {name : Text} (hname : name ∉ ts.map (·.1)) :
    reasonFor? name (found.filterMap id) = none := by
  induction h with
  | nil => rfl
  | @cons t o ts found ho _ ih =>
    rw [List.map_cons, List.mem_cons, not_or] at hname
    obtain ⟨r, -, hr⟩ := bind_eq_ok.1 ho
    cases hr
    cases r with
    | none => exact ih hname.2
    | some reason =>
      unfold reasonFor? at ih ⊢
      simp only [List.filterMap_cons, id_eq, Option.map_some, List.find?_cons, beq_eq_false_iff_ne.2 (Ne.symm hname.1)]
      exact ih hname.2

/-- What is found is what is wrong with the file that has the name. -/
theorem reasonFor?_of_mem (hnodup : (ts.map (·.1)).Nodup) {t : Text × Text} (ht : t ∈ ts) :
    g t = .ok (reasonFor? t.1 (found.filterMap id)) := by
  induction h with
  | nil => cases ht
  | @cons u o ts found ho hrest ih =>
    rw [List.map_cons, List.nodup_cons] at hnodup
    obtain ⟨r, hg, hr⟩ := bind_eq_ok.1 ho
    cases hr
    cases ht with
    | head =>
      rw [hg]
      cases r with
      | none => exact congrArg Except.ok (reasonFor?_of_not_mem hrest hnodup.1).symm
      | some reason => simp [reasonFor?]
    | tail _ ht =>
      have hne : (u.1 == t.1) = false := beq_eq_false_iff_ne.2 fun heq =>
        hnodup.1 (heq ▸ List.mem_map_of_mem ht)
      rw [ih hnodup.2 ht]
      cases r with
      | none => rfl
      | some reason => simp [reasonFor?, hne]

end Found

theorem reasonFor?_reasons (hnodup : (files.map (·.1)).Nodup) (h : f.reasons files = .ok faults) (ht : t ∈ files) :
    (f.isOf t.1 = true → f.reason t.1 t.2 = .ok (reasonFor? t.1 faults)) ∧
      (f.isOf t.1 = false → reasonFor? t.1 faults = none) := by
  obtain ⟨found, hfound, rfl⟩ := reasons_eq_ok.1 h
  refine ⟨fun hf => ?_, fun hf => reasonFor?_of_not_mem hfound fun hmem => ?_⟩
  · exact reasonFor?_of_mem hfound ((List.filter_sublist.map _).nodup hnodup) (List.mem_filter.2 ⟨ht, hf⟩)
  · obtain ⟨u, hu, heq⟩ := List.mem_map.1 hmem
    have huf := (List.mem_filter.1 hu).2
    rw [heq, hf] at huf
    cases huf

theorem invalidFiles_eq_ok : invalidFiles files = .ok faults ↔ ∃ scripts yamls jsons,
    Format.script.reasons files = .ok scripts ∧ Format.yaml.reasons files = .ok yamls ∧
      Format.json.reasons files = .ok jsons ∧ faults = scripts ++ yamls ++ jsons := by
  unfold invalidFiles
  simp only [bind_eq_ok]
  constructor
  · rintro ⟨scripts, hscripts, yamls, hyamls, jsons, hjsons, h⟩
    exact ⟨scripts, yamls, jsons, hscripts, hyamls, hjsons, (Except.ok.inj h).symm⟩
  · rintro ⟨scripts, yamls, jsons, hscripts, hyamls, hjsons, rfl⟩
    exact ⟨scripts, hscripts, yamls, hyamls, jsons, hjsons, rfl⟩

/-- **A check goes through exactly when each file can be looked at.** -/
theorem exists_invalidFiles_ok : (∃ faults, invalidFiles files = .ok faults) ↔
    ∀ t ∈ files, ∃ r, reasonOf t.1 t.2 = .ok r := by
  have hall : (∃ faults, invalidFiles files = .ok faults) ↔ ∀ f : Format, ∃ faults, f.reasons files = .ok faults := by
    simp only [invalidFiles_eq_ok]
    constructor
    · rintro ⟨-, scripts, yamls, jsons, hscripts, hyamls, hjsons, -⟩ f
      cases f with
      | script => exact ⟨scripts, hscripts⟩
      | yaml => exact ⟨yamls, hyamls⟩
      | json => exact ⟨jsons, hjsons⟩
    · intro h
      obtain ⟨scripts, hscripts⟩ := h .script
      obtain ⟨yamls, hyamls⟩ := h .yaml
      obtain ⟨jsons, hjsons⟩ := h .json
      exact ⟨_, scripts, yamls, jsons, hscripts, hyamls, hjsons, rfl⟩
  rw [hall]
  simp only [exists_reasons_ok]
  constructor
  · intro h t ht
    unfold reasonOf
    cases hf : formatOf? t.1 with
    | none => exact ⟨none, rfl⟩
    | some f => exact h f t ht (formatOf?_eq_some.1 hf)
  · intro h f t ht hf
    have hreason := h t ht
    rwa [reasonOf, formatOf?_eq_some.2 hf] at hreason

/-- **What is found wrong with a file is what is wrong with it.** -/
theorem invalidFiles_reason (hnodup : (files.map (·.1)).Nodup) (h : invalidFiles files = .ok faults) (ht : t ∈ files) :
    reasonOf t.1 t.2 = .ok (reasonFor? t.1 faults) := by
  obtain ⟨scripts, yamls, jsons, hscripts, hyamls, hjsons, rfl⟩ := invalidFiles_eq_ok.1 h
  have hother : ∀ {f g : Format}, f.isOf t.1 = true → g ≠ f → g.isOf t.1 = false := fun {f g} hf hne => by
    rw [← Bool.not_eq_true]
    intro hg
    exact hne (Option.some.inj ((formatOf?_eq_some.2 hg).symm.trans (formatOf?_eq_some.2 hf)))
  obtain ⟨hs, hs'⟩ := reasonFor?_reasons hnodup hscripts ht
  obtain ⟨hy, hy'⟩ := reasonFor?_reasons hnodup hyamls ht
  obtain ⟨hj, hj'⟩ := reasonFor?_reasons hnodup hjsons ht
  rw [reasonFor?_append, reasonFor?_append]
  unfold reasonOf
  cases hformat : formatOf? t.1 with
  | none =>
    have hnone : ∀ f : Format, f.isOf t.1 = false := fun f => by
      rw [← Bool.not_eq_true]
      intro hf
      rw [formatOf?_eq_some.2 hf] at hformat
      cases hformat
    simp only [hs' (hnone _), hy' (hnone _), hj' (hnone _), Option.none_or]
  | some f =>
    have hf := formatOf?_eq_some.1 hformat
    cases f with
    | script => simp only [hs hf, hy' (hother hf (by decide)), hj' (hother hf (by decide)), Option.or_none]
    | yaml => simp only [hy hf, hs' (hother hf (by decide)), hj' (hother hf (by decide)), Option.or_none, Option.none_or]
    | json => simp only [hj hf, hs' (hother hf (by decide)), hy' (hother hf (by decide)), Option.none_or]

/-! ## Texts by their paths -/

/-- The text of the last file with a path. -/
def lastText? (path : Text) (files : List GeneratedFile) : Option Text :=
  ((files.filter fun f => f.path == path).getLast?).map (·.content)

theorem lastText?_append (path : Text) (files : List GeneratedFile) (f : GeneratedFile) :
    lastText? path (files ++ [f]) = if f.path = path then some f.content else lastText? path files := by
  unfold lastText?
  rw [List.filter_append]
  split
  · rename_i hpath
    rw [List.filter_cons_of_pos (by simpa using hpath), List.filter_nil, List.getLast?_concat]
    rfl
  · rename_i hpath
    rw [List.filter_cons_of_neg (by simpa using hpath), List.filter_nil, List.append_nil]

theorem exists_lastText {files : List GeneratedFile} {f : GeneratedFile} (hf : f ∈ files) :
    ∃ t, lastText? f.path files = some t := by
  unfold lastText?
  have hne : (files.filter fun g => g.path == f.path) ≠ [] :=
    List.ne_nil_of_mem (List.mem_filter.2 ⟨hf, beq_self_eq_true f.path⟩)
  rw [List.getLast?_eq_some_getLast hne]
  exact ⟨_, rfl⟩

theorem mem_of_lastText {path t : Text} {files : List GeneratedFile} (h : lastText? path files = some t) :
    ∃ f ∈ files, f.path = path ∧ f.content = t := by
  unfold lastText? at h
  obtain ⟨f, hf, rfl⟩ := Option.map_eq_some_iff.1 h
  have hmem := List.mem_filter.1 (List.mem_of_getLast? hf)
  exact ⟨f, hmem.1, beq_iff_eq.1 hmem.2, rfl⟩

theorem textsByPath_append (files : List GeneratedFile) (f : GeneratedFile) :
    textsByPath (files ++ [f]) =
      if (textsByPath files).any fun t => t.1 == f.path then
        (textsByPath files).map fun t => if t.1 == f.path then (f.path, f.content) else t
      else textsByPath files ++ [(f.path, f.content)] := by
  unfold textsByPath
  rw [List.foldl_append, List.foldl_cons, List.foldl_nil]

/-- **Of several texts for one path the last one counts**, and each path is there once. -/
theorem textsByPath_spec (files : List GeneratedFile) : ((textsByPath files).map (·.1)).Nodup ∧
    ∀ t : Text × Text, t ∈ textsByPath files ↔ lastText? t.1 files = some t.2 := by
  induction files using List.reverseRecOn with
  | nil => exact ⟨List.nodup_nil, fun t => by simp [textsByPath, lastText?]⟩
  | append_singleton files f ih =>
    obtain ⟨hnodup, hmem⟩ := ih
    rw [textsByPath_append]
    split
    · rename_i hany
      obtain ⟨u, hu, hupath⟩ := List.any_eq_true.1 hany
      have hfst : ∀ t : Text × Text, (if t.1 == f.path then (f.path, f.content) else t).1 = t.1 := fun t => by
        split
        · rename_i heq
          exact (beq_iff_eq.1 heq).symm
        · rfl
      refine ⟨?_, fun t => ?_⟩
      · rw [List.map_map]
        exact (List.map_congr_left fun t _ => hfst t) ▸ hnodup
      · rw [lastText?_append, List.mem_map]
        split
        · rename_i heq
          constructor
          · rintro ⟨v, -, rfl⟩
            have hv : (v.1 == f.path) = true := beq_iff_eq.2 (heq.trans (hfst v)).symm
            rw [if_pos hv]
          · intro hcontent
            refine ⟨u, hu, ?_⟩
            rw [if_pos hupath]
            exact Prod.ext heq (Option.some.inj hcontent)
        · rename_i hne
          rw [← hmem]
          constructor
          · rintro ⟨v, hv, rfl⟩
            rw [hfst] at hne
            rwa [if_neg fun heq => hne (beq_iff_eq.1 heq).symm]
          · intro ht
            exact ⟨t, ht, if_neg fun heq => hne (beq_iff_eq.1 heq).symm⟩
    · rename_i hany
      have hfree : ∀ t ∈ textsByPath files, t.1 ≠ f.path := fun t ht heq =>
        hany (List.any_eq_true.2 ⟨t, ht, beq_iff_eq.2 heq⟩)
      refine ⟨?_, fun t => ?_⟩
      · rw [List.map_append, List.nodup_append]
        refine ⟨hnodup, by simp, fun a ha b hb => ?_⟩
        obtain ⟨t, ht, rfl⟩ := List.mem_map.1 ha
        rw [List.mem_singleton.1 hb]
        exact hfree t ht
      · rw [lastText?_append, List.mem_append, List.mem_singleton]
        split
        · rename_i heq
          constructor
          · rintro (ht | rfl)
            · exact absurd heq.symm (hfree t ht)
            · rfl
          · intro hcontent
            exact .inr (Prod.ext heq.symm (Option.some.inj hcontent).symm)
        · rename_i hne
          rw [← hmem]
          exact or_iff_left fun heq => hne (congrArg Prod.fst heq).symm

/-! ## Verdicts -/

/-- A result in the light of what is wrong with its file, among all files. -/
def verdict (files : List GeneratedFile) (r : EndpointResult) : EndpointResult :=
  match r.file?.bind fun f => (lastText? f.path files).bind fun t => (reasonOf f.path t).toOption.join with
  | none => r
  | some reason => { r with outcome := .error (.brokenModule reason) }

theorem endpoint_verdict (files : List GeneratedFile) (r : EndpointResult) : (verdict files r).endpoint = r.endpoint := by
  unfold verdict
  split <;> rfl

theorem inLightOf_eq {files : List GeneratedFile} {faults : List (Text × Text)}
    (h : invalidFiles (textsByPath files) = .ok faults) {r : EndpointResult} (hr : ∀ f, r.file? = some f → f ∈ files) :
    inLightOf faults r = verdict files r := by
  unfold inLightOf verdict
  cases hf : r.file? with
  | none => rfl
  | some f =>
    obtain ⟨hnodup, hmem⟩ := textsByPath_spec files
    obtain ⟨t, ht⟩ := exists_lastText (hr f hf)
    have hreason : reasonOf f.path t = .ok (reasonFor? f.path faults) := invalidFiles_reason hnodup h ((hmem (f.path, t)).2 ht)
    have hverdict : ((lastText? f.path files).bind fun t => (reasonOf f.path t).toOption.join) = reasonFor? f.path faults := by
      rw [ht, Option.bind_some, hreason]
      exact Option.join_some
    rw [Option.bind_some, Option.bind_some]
    exact hverdict ▸ rfl

/-- **The check of a generation**: every file can be looked at, nothing is wrong with the base document, and each
result gets its verdict. -/
theorem checkedFiles_eq_ok {base : GeneratedFile} {rs rs' : List EndpointResult} :
    checkedFiles base rs = .ok rs' ↔
      (∀ path t, lastText? path (rs.filterMap EndpointResult.file? ++ [base]) = some t → ∃ r, reasonOf path t = .ok r) ∧
      reasonOf base.path base.content = .ok none ∧
      rs' = rs.map (verdict (rs.filterMap EndpointResult.file? ++ [base])) := by
  obtain ⟨hnodup, hmem⟩ := textsByPath_spec (rs.filterMap EndpointResult.file? ++ [base])
  have hbase : (base.path, base.content) ∈ textsByPath (rs.filterMap EndpointResult.file? ++ [base]) := by
    rw [hmem, lastText?_append, if_pos rfl]
  have hlooked : (∃ faults, invalidFiles (textsByPath (rs.filterMap EndpointResult.file? ++ [base])) = .ok faults) ↔
      ∀ path t, lastText? path (rs.filterMap EndpointResult.file? ++ [base]) = some t → ∃ r, reasonOf path t = .ok r := by
    rw [exists_invalidFiles_ok]
    exact ⟨fun h path t ht => h (path, t) ((hmem _).2 ht), fun h t ht => h t.1 t.2 ((hmem t).1 ht)⟩
  have hresults : ∀ {faults}, invalidFiles (textsByPath (rs.filterMap EndpointResult.file? ++ [base])) = .ok faults →
      rs.map (inLightOf faults) = rs.map (verdict (rs.filterMap EndpointResult.file? ++ [base])) := fun h =>
    List.map_congr_left fun r hr => inLightOf_eq h fun f hf =>
      List.mem_append_left _ (List.mem_filterMap.2 ⟨r, hr, hf⟩)
  rw [← hlooked]
  unfold checkedFiles
  rw [bind_eq_ok, ← exists_and_right]
  refine exists_congr fun faults => and_congr_right fun hfaults => ?_
  rw [invalidFiles_reason hnodup hfaults hbase, ← hresults hfaults]
  cases reasonFor? base.path faults with
  | some reason => simp
  | none => exact ⟨fun h => ⟨rfl, (Except.ok.inj h).symm⟩, fun h => h.2 ▸ rfl⟩

end ApiRoutes.Project
