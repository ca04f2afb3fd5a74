import ApiRoutes.Proofs.Json.Data
import ApiRoutes.Proofs.Project.SecondRun
/-!
# Completing a manifest

Merging the defaults into a manifest adds the modules that its sections lack, and nothing else (`Completes`); what is
complete is left by another merge (`mergeManifest_of_listsAll`), also after it was written to a file and read back
(`updateManifest_again`).
-/
namespace ApiRoutes.Project

open Disk Value

variable {defaults existing merged merged' listed entries : Entries} {name : Text} {names : List Text} {v : Value}

/-! ## Sections -/

/-- Each key is found, and none at the entry of an earlier one. -/
structure IsMapping (entries : Entries) : Prop where
  found : ∀ e ∈ entries, sameValue e.1 e.1 = true
  apart : entries.Pairwise fun e f => sameValue e.1 f.1 = false

/-- The modules that a section lists: none where it is absent or nothing. -/
def modulesOf : Option Value → Entries
  | some (.map entries) => entries
  | _ => []

/-- The entries that are missing among others. -/
def missing (defaults listed : Entries) : Entries := defaults.filter fun e => !hasKey e.1 listed

theorem addMissing_eq (listed : Entries) (h : IsMapping entries) :
    addMissing entries listed = listed ++ missing entries listed := by
  replace h := h.apart
  induction entries generalizing listed with
  | nil => exact (List.append_nil listed).symm
  | cons e entries ih =>
    obtain ⟨hfirst, hrest⟩ := List.pairwise_cons.1 h
    cases hkey : hasKey e.1 listed with
    | true =>
      have hstep : addMissing (e :: entries) listed = addMissing entries listed := by simp [addMissing, hkey]
      rw [hstep, ih listed hrest, missing, missing, List.filter_cons_of_neg (by simp [hkey])]
    | false =>
      have hstep : addMissing (e :: entries) listed = addMissing entries (listed ++ [e]) := by simp [addMissing, hkey]
      -- No later entry is found at this one.
      have hsame : missing entries (listed ++ [e]) = missing entries listed := by
        refine List.filter_congr fun f hf => ?_
        rw [hasKey_append, show hasKey f.1 [e] = false by simp [hasKey, hfirst f hf], Bool.or_false]
      rw [hstep, ih _ hrest, hsame, List.append_assoc, missing, missing, List.filter_cons_of_pos (by simp [hkey])]
      rfl

theorem hasKey_completed (h : IsMapping entries) (listed : Entries) :
    ∀ e ∈ entries, hasKey e.1 (listed ++ missing entries listed) = true := by
  intro e he
  rw [hasKey_append]
  cases hkey : hasKey e.1 listed with
  | true => rfl
  | false => exact List.any_eq_true.2 ⟨e, List.mem_filter.2 ⟨he, by simp [hkey]⟩, h.found e he⟩

theorem missing_eq_nil (h : ∀ e ∈ entries, hasKey e.1 listed = true) : missing entries listed = [] :=
  List.filter_eq_nil_iff.2 fun e he => by simp [h e he]

/-- A section of the defaults: absent, or a mapping. -/
def IsDefault (section? : Option Value) : Prop :=
  ∀ v, section? = some v → ∃ entries, v = .map entries ∧ IsMapping entries

/-- What a section of a manifest is taken for. -/
def listedIn (section? : Option Value) : Outcome Entries :=
  match section? with
  | some v => if v.isTruthy then entriesOf v else .ok []
  | none => .ok []

theorem mergeSection_eq_ok {default? section? : Option Value} (h : IsDefault default?) :
    mergeSection default? section? = .ok entries ↔
      ∃ listed, listedIn section? = .ok listed ∧ entries = listed ++ missing (modulesOf default?) listed := by
  have hsplit : mergeSection default? section? = listedIn section? >>= fun listed =>
      .ok (listed ++ missing (modulesOf default?) listed) := by
    obtain ⟨es, hsame, hmodules, hes⟩ : ∃ es, mergeSection default? section? = mergeSection (some (.map es)) section? ∧
        modulesOf default? = es ∧ IsMapping es := by
      cases default? with
      | none => exact ⟨[], rfl, rfl, nofun, .nil⟩
      | some v =>
        obtain ⟨es, rfl, hes⟩ := h v rfl
        exact ⟨es, rfl, rfl, hes⟩
    rw [hsame, hmodules]
    simp only [mergeSection, listedIn, addMissing_eq _ hes]
    cases section? with
    | none => rfl
    | some v =>
      dsimp only
      split <;> rfl
  rw [hsplit, bind_eq_ok]
  exact exists_congr fun listed => and_congr_right fun _ => ⟨fun h => (Except.ok.inj h).symm, fun h => h ▸ rfl⟩

/-- A section that is absent, nothing or a mapping. -/
def IsSection (section? : Option Value) : Prop := ∀ v, section? = some v → v = .null ∨ ∃ entries, v = .map entries

theorem listedIn_of_isSection {section? : Option Value} (h : IsSection section?) :
    listedIn section? = .ok (modulesOf section?) := by
  cases section? with
  | none => rfl
  | some v =>
    obtain rfl | ⟨entries, rfl⟩ := h v rfl
    · rfl
    · cases entries <;> rfl

/-! ## The sections of a manifest, one after the other -/

/-- Is the section in the defaults or in the manifest? -/
def isMerged (defaults existing : Entries) (name : Text) : Bool :=
  hasKey (.text name) defaults || hasKey (.text name) existing

/-- A section of the manifest with the defaults merged in. -/
def mergedSection (defaults existing : Entries) (name : Text) : Outcome Entries :=
  mergeSection (lookup? (.text name) defaults) (lookup? (.text name) existing)

/-- A run over sections merges the first one, if it is anywhere, and then the others. -/
theorem mergeSections_cons : mergeSections defaults existing (name :: names) merged = .ok merged' ↔
    (isMerged defaults existing name = true ∧ ∃ entries, mergedSection defaults existing name = .ok entries ∧
      mergeSections defaults existing names (insert (.text name) (.map entries) merged) = .ok merged') ∨
    (isMerged defaults existing name = false ∧ mergeSections defaults existing names merged = .ok merged') := by
  rw [mergeSections]
  change (if isMerged defaults existing name = true then _ else _) = _ ↔ _
  cases isMerged defaults existing name with
  | true => simp [mergedSection, bind_eq_ok]
  | false => simp

/-- What holds of all entries holds of them with the sections merged. -/
theorem forall_mergeSections {P Q : Value → Prop} (hnames : ∀ name ∈ names, P (.text name))
    (hsections : ∀ name ∈ names, ∀ entries, mergedSection defaults existing name = .ok entries → Q (.map entries))
    (h : mergeSections defaults existing names merged = .ok merged') (hmerged : ∀ e ∈ merged, P e.1 ∧ Q e.2) :
    ∀ e ∈ merged', P e.1 ∧ Q e.2 := by
  induction names generalizing merged with
  | nil => exact Except.ok.inj h ▸ hmerged
  | cons name names ih =>
    rw [List.forall_mem_cons] at hnames hsections
    obtain ⟨-, entries, hentries, hrest⟩ | ⟨-, hrest⟩ := mergeSections_cons.1 h
    · exact ih hnames.2 hsections.2 hrest (forall_insert hmerged hnames.1 (hsections.1 entries hentries))
    · exact ih hnames.2 hsections.2 hrest hmerged

theorem holds_mergeSections {t : Text} (hv : Value.Holds (.text t) v merged) (ht : t ∉ names)
    (h : mergeSections defaults existing names merged = .ok merged') : Value.Holds (.text t) v merged' := by
  induction names generalizing merged with
  | nil => exact Except.ok.inj h ▸ hv
  | cons name names ih =>
    obtain ⟨hne, ht⟩ := not_or.1 (mt List.mem_cons.2 ht)
    obtain ⟨-, entries, -, hrest⟩ | ⟨-, hrest⟩ := mergeSections_cons.1 h
    · exact ih (hv.insert_of_ne hne _) ht hrest
    · exact ih hv ht hrest

/-- What merging sections makes of a manifest. -/
structure Merges (defaults existing : Entries) (names : List Text) (merged merged' : Entries) : Prop where
  keys : merged'.map Prod.fst = merged.map Prod.fst ++
    (names.filter fun name => isMerged defaults existing name && !hasKey (.text name) merged).map Value.text
  others : ∀ key, (∀ name ∈ names, sameValue (.text name) key = false) → lookup? key merged' = lookup? key merged
  sections : ∀ name ∈ names, isMerged defaults existing name = true →
    ∃ entries, mergedSection defaults existing name = .ok entries ∧ Value.Holds (.text name) (.map entries) merged'

theorem Merges.skip (h : Merges defaults existing names merged merged')
    (hname : isMerged defaults existing name = false) : Merges defaults existing (name :: names) merged merged' := by
  refine ⟨?_, fun key hkey => h.others key (List.forall_mem_cons.1 hkey).2, ?_⟩
  · rw [List.filter_cons_of_neg (by simp [hname])]
    exact h.keys
  · refine List.forall_mem_cons.2 ⟨fun htrue => ?_, h.sections⟩
    rw [hname] at htrue
    cases htrue

theorem Merges.step (h : Merges defaults existing names (insert (.text name) (.map entries) merged) merged')
    (hname : isMerged defaults existing name = true) (hfresh : name ∉ names)
    (hentries : mergedSection defaults existing name = .ok entries)
    (hholds : Value.Holds (.text name) (.map entries) merged') :
    Merges defaults existing (name :: names) merged merged' := by
  refine ⟨?_, fun key hkey => ?_, ?_⟩
  · -- The later sections are missing as they were, since they are others.
    have hlater : (names.filter fun n => isMerged defaults existing n &&
        !hasKey (.text n) (insert (.text name) (.map entries) merged)) =
          names.filter fun n => isMerged defaults existing n && !hasKey (.text n) merged := by
      refine List.filter_congr fun n hn => ?_
      have hne : name ≠ n := fun heq => hfresh (heq ▸ hn)
      rw [hasKey_insert, sameValue_text_of_ne hne, Bool.or_false]
    rw [h.keys, keys_insert, hlater, List.append_assoc]
    cases hkey : hasKey (.text name) merged with
    | true => rw [List.filter_cons_of_neg (by simp [hkey])]; rfl
    | false => rw [List.filter_cons_of_pos (by simp [hkey, hname])]; rfl
  · obtain ⟨hfirst, hrest⟩ := List.forall_mem_cons.1 hkey
    rw [h.others key hrest, lookup?_insert_of_ne hfirst]
  · exact List.forall_mem_cons.2 ⟨fun _ => ⟨entries, hentries, hholds⟩, h.sections⟩

/-- **What a run over sections makes of a manifest.** -/
theorem merges_of_mergeSections (hnames : names.Nodup) (h : mergeSections defaults existing names merged = .ok merged') :
    Merges defaults existing names merged merged' := by
  induction names generalizing merged with
  | nil =>
    obtain rfl := Except.ok.inj h
    exact ⟨(List.append_nil _).symm, fun _ _ => rfl, nofun⟩
  | cons name names ih =>
    obtain ⟨hfresh, hnames⟩ := List.nodup_cons.1 hnames
    obtain ⟨hname, entries, hentries, hrest⟩ | ⟨hname, hrest⟩ := mergeSections_cons.1 h
    · exact (ih hnames hrest).step hname hfresh hentries
        (holds_mergeSections (holds_insert (sameValue_text.2 rfl) _ _) hfresh hrest)
    · exact (ih hnames hrest).skip hname

theorem exists_mergeSections (h : ∀ name ∈ names, ∃ entries, mergedSection defaults existing name = .ok entries)
    (merged : Entries) : ∃ merged', mergeSections defaults existing names merged = .ok merged' := by
  induction names generalizing merged with
  | nil => exact ⟨merged, rfl⟩
  | cons name names ih =>
    obtain ⟨⟨entries, hentries⟩, hrest⟩ := List.forall_mem_cons.1 h
    cases hname : isMerged defaults existing name with
    | true =>
      obtain ⟨merged', hmerged'⟩ := ih hrest (insert (.text name) (.map entries) merged)
      exact ⟨merged', mergeSections_cons.2 (.inl ⟨hname, entries, hentries, hmerged'⟩)⟩
    | false =>
      obtain ⟨merged', hmerged'⟩ := ih hrest merged
      exact ⟨merged', mergeSections_cons.2 (.inr ⟨hname, hmerged'⟩)⟩

/-! ## The defaults merged into a manifest -/

/-- Defaults whose sections are absent or mappings. -/
def AreDefaults (defaults : Entries) : Prop := ∀ name ∈ dependencySections, IsDefault (lookup? (.text name) defaults)

/-- A manifest whose sections are absent, nothing or mappings. -/
def HasSections (existing : Entries) : Prop := ∀ name ∈ dependencySections, IsSection (lookup? (.text name) existing)

/-- What a manifest is with the defaults merged into it: its keys keep their order, and those of missing sections
follow; what is no section keeps its value; a section has the modules that it lists, and then the missing ones. -/
structure Completes (defaults existing merged : Entries) : Prop where
  keys : merged.map Prod.fst = existing.map Prod.fst ++
    (dependencySections.filter fun name => hasKey (.text name) defaults && !hasKey (.text name) existing).map Value.text
  others : ∀ key, (∀ name ∈ dependencySections, sameValue (.text name) key = false) →
    lookup? key merged = lookup? key existing
  sections : ∀ name ∈ dependencySections, isMerged defaults existing name = true →
    lookup? (.text name) merged = some (.map (modulesOf (lookup? (.text name) existing) ++
      missing (modulesOf (lookup? (.text name) defaults)) (modulesOf (lookup? (.text name) existing))))

/-- The sections of a manifest list all the default modules. -/
def ListsAll (defaults merged : Entries) : Prop := ∀ name ∈ dependencySections, isMerged defaults merged name = true →
  ∃ entries, Value.Holds (.text name) (.map entries) merged ∧
    ∀ e ∈ modulesOf (lookup? (.text name) defaults), hasKey e.1 entries = true

theorem mergeManifest_map : mergeManifest defaults (.map existing) = .ok v ↔
    ∃ merged, mergeSections defaults existing dependencySections existing = .ok merged ∧ v = .map merged := by
  rw [mergeManifest, bind_eq_ok]
  exact exists_congr fun _ => and_congr_right fun _ => ⟨fun h => (Except.ok.inj h).symm, fun h => h ▸ rfl⟩

theorem nodup_dependencySections : dependencySections.Nodup := by decide

theorem IsDefault.hasKey_completed {default? : Option Value} (h : IsDefault default?) (listed : Entries) :
    ∀ e ∈ modulesOf default?, hasKey e.1 (listed ++ missing (modulesOf default?) listed) = true := by
  cases default? with
  | none => nofun
  | some v =>
    obtain ⟨entries, rfl, hentries⟩ := h v rfl
    exact Project.hasKey_completed hentries listed

/-- A section of what is merged is one of the defaults or of the manifest. -/
theorem Merges.isMerged_of_isMerged (h : Merges defaults existing names existing merged)
    (hname : isMerged defaults merged name = true) : isMerged defaults existing name = true := by
  unfold isMerged at hname ⊢
  cases hdefault : hasKey (.text name) defaults with
  | true => rfl
  | false =>
    rw [hdefault, Bool.false_or] at hname
    obtain ⟨v, hv⟩ := hasKey_text.1 hname
    have hkey : Value.text name ∈ merged.map Prod.fst := List.mem_map_of_mem (f := Prod.fst) hv
    rw [h.keys, List.mem_append] at hkey
    obtain hkey | hkey := hkey
    · obtain ⟨⟨k, v⟩, he, rfl⟩ := List.mem_map.1 hkey
      exact hasKey_text.2 ⟨v, he⟩
    · obtain ⟨n, hn, heq⟩ := List.mem_map.1 hkey
      cases heq
      have hnew := (List.mem_filter.1 hn).2
      rw [Bool.and_eq_true, isMerged, hdefault] at hnew
      exact hnew.1

/-- What is merged lists all the default modules. -/
theorem listsAll_of_mergeSections (hdefaults : AreDefaults defaults)
    (h : mergeSections defaults existing dependencySections existing = .ok merged) : ListsAll defaults merged := by
  have hmerges := merges_of_mergeSections nodup_dependencySections h
  intro name hname hmerged
  obtain ⟨entries, hentries, hholds⟩ := hmerges.sections name hname (hmerges.isMerged_of_isMerged hmerged)
  obtain ⟨listed, -, rfl⟩ := (mergeSection_eq_ok (hdefaults name hname)).1 hentries
  exact ⟨_, hholds, (hdefaults name hname).hasKey_completed listed⟩

theorem mergeSections_of_complete (h : ∀ name ∈ names, isMerged defaults merged name = true → ∃ entries,
    Value.Holds (.text name) (.map entries) merged ∧
      mergeSection (lookup? (.text name) defaults) (some (.map entries)) = .ok entries) :
    mergeSections defaults merged names merged = .ok merged := by
  induction names with
  | nil => rfl
  | cons name names ih =>
    obtain ⟨hfirst, hrest⟩ := List.forall_mem_cons.1 h
    cases hname : isMerged defaults merged name with
    | false => exact mergeSections_cons.2 (.inr ⟨hname, ih hrest⟩)
    | true =>
      obtain ⟨entries, hholds, hentries⟩ := hfirst hname
      refine mergeSections_cons.2 (.inl ⟨hname, entries, ?_, ?_⟩)
      · rw [mergedSection, hholds.lookup?]
        exact hentries
      · rw [hholds.insert_eq]
        exact ih hrest

/-- **A manifest that lists all the default modules is left as it is.** -/
theorem mergeManifest_of_listsAll (hdefaults : AreDefaults defaults) (h : ListsAll defaults merged) :
    mergeManifest defaults (.map merged) = .ok (.map merged) := by
  refine mergeManifest_map.2 ⟨merged, mergeSections_of_complete fun name hname hmerged => ?_, rfl⟩
  obtain ⟨entries, hholds, hentries⟩ := h name hname hmerged
  refine ⟨entries, hholds, (mergeSection_eq_ok (hdefaults name hname)).2 ⟨entries, ?_, ?_⟩⟩
  · exact listedIn_of_isSection fun v hv => .inr ⟨entries, (Option.some.inj hv).symm⟩
  · rw [missing_eq_nil hentries, List.append_nil]

/-- **The defaults are merged into a manifest** whose sections are absent, nothing or mappings. -/
theorem exists_completes (hdefaults : AreDefaults defaults) (hexisting : HasSections existing) :
    ∃ merged, mergeManifest defaults (.map existing) = .ok (.map merged) ∧ Completes defaults existing merged ∧
      mergeManifest defaults (.map merged) = .ok (.map merged) := by
  have hsection (name : Text) (hname : name ∈ dependencySections) {entries : Entries} :
      mergedSection defaults existing name = .ok entries ↔
        entries = modulesOf (lookup? (.text name) existing) ++
          missing (modulesOf (lookup? (.text name) defaults)) (modulesOf (lookup? (.text name) existing)) := by
    rw [mergedSection, mergeSection_eq_ok (hdefaults name hname), listedIn_of_isSection (hexisting name hname)]
    simp
  obtain ⟨merged, hmerged⟩ := exists_mergeSections (fun name hname => ⟨_, (hsection name hname).2 rfl⟩) existing
  have hmerges := merges_of_mergeSections nodup_dependencySections hmerged
  refine ⟨merged, mergeManifest_map.2 ⟨merged, hmerged, rfl⟩, ⟨?_, hmerges.others, fun name hname hin => ?_⟩,
    mergeManifest_of_listsAll hdefaults (listsAll_of_mergeSections hdefaults hmerged)⟩
  · rw [hmerges.keys]
    refine congrArg (existing.map Prod.fst ++ ·.map Value.text) (List.filter_congr fun name _ => ?_)
    unfold isMerged
    cases hasKey (.text name) existing <;> simp
  · obtain ⟨entries, hentries, hholds⟩ := hmerges.sections name hname hin
    rw [hholds.lookup?, (hsection name hname).1 hentries]

/-! ## The manifest of an app -/

theorem entryOf_isData {e : Value × Value} (hv : Json.IsData v) (h : entryOf v = .ok e) :
    (e.1.canBeKey = true ∧ Json.IsData e.1) ∧ Json.IsData e.2 := by
  have hentry {k w : Value} (hk : Json.IsData k) (hw : Json.IsData w) (h : entry k w = .ok e) :
      (e.1.canBeKey = true ∧ Json.IsData e.1) ∧ Json.IsData e.2 := by
    unfold entry at h
    split at h
    · cases h
      exact ⟨⟨‹_›, hk⟩, hw⟩
    · cases h
  have hletter (c : CodePoint) : Json.IsData (.text [c]) := List.IsChain.singleton c
  unfold entryOf at h
  split at h
  · exact hentry hv.1 hv.2.1 h
  · exact hentry (hletter _) (hletter _) h
  · exact hv.elim
  · exact hentry hv.1.2 hv.2.2.1.2 h
  all_goals cases h

theorem entriesOf_areEntries (hv : Json.IsData v) (h : entriesOf v = .ok entries) : Json.AreEntries entries := by
  unfold entriesOf at h
  split at h
  · cases h
    exact hv
  · obtain ⟨es, hes, h⟩ := bind_eq_ok.1 h
    cases h
    refine Json.areEntries_iff.2 (forall_ofEntries (P := fun k => k.canBeKey = true ∧ Json.IsData k)
      (Q := Json.IsData) fun e he => ?_)
    obtain ⟨item, hitem, hentry⟩ := exists_of_forall₂ (mapM_eq_ok.1 hes) he
    exact entryOf_isData (Json.areData_iff.1 hv item hitem) hentry
  · exact hv.elim
  all_goals cases h
  · exact trivial
  · exact trivial

theorem mergeSection_areEntries {default? section? : Option Value} (hdefault : IsDefault default?)
    (hmodules : Json.AreEntries (modulesOf default?)) (hsection : ∀ v, section? = some v → Json.IsData v)
    (h : mergeSection default? section? = .ok entries) : Json.AreEntries entries := by
  obtain ⟨listed, hlisted, rfl⟩ := (mergeSection_eq_ok hdefault).1 h
  have hlisted : Json.AreEntries listed := by
    unfold listedIn at hlisted
    split at hlisted
    · split at hlisted
      · exact entriesOf_areEntries (hsection _ rfl) hlisted
      · exact Except.ok.inj hlisted ▸ trivial
    · exact Except.ok.inj hlisted ▸ trivial
  rw [Json.areEntries_iff] at hlisted hmodules ⊢
  exact List.forall_mem_append.2 ⟨hlisted, fun e he => hmodules e (List.mem_of_mem_filter he)⟩

/-- A section that is made of modules and versions. -/
theorem dependencies_eq_map {entries : List (String × String)} (h : (entries.map Prod.fst).Nodup) :
    ∃ modules, dependencies entries = .map modules ∧ IsMapping modules ∧ Json.AreRead modules := by
  refine ⟨_, rfl, ⟨fun e he => ?_, ?_⟩, fun e he => ?_⟩
  · obtain ⟨⟨module, version⟩, -, rfl⟩ := List.mem_map.1 he
    exact sameValue_text.2 rfl
  · exact List.pairwise_map.2 ((List.pairwise_map.1 h).imp fun hne =>
      sameValue_text_of_ne fun heq => hne (Text.ofString_inj heq))
  · obtain ⟨⟨module, version⟩, -, rfl⟩ := List.mem_map.1 he
    exact ⟨⟨module, rfl, Json.isJoined_ofString module⟩, Json.isJoined_ofString version⟩

/-- The sections of the default manifest. -/
theorem default_section : ∀ name ∈ dependencySections, ∃ modules,
    lookup? (.text name) defaultManifest = some (.map modules) ∧ IsMapping modules ∧ Json.AreRead modules := by
  have hsections : ∀ name ∈ dependencySections, ∃ entries : List (String × String),
      (.text name, dependencies entries) ∈ defaultManifest ∧ (entries.map Prod.fst).Nodup :=
    List.forall_mem_cons.2 ⟨⟨_, .tail _ (.tail _ (.tail _ (.tail _ (.head _)))), by decide⟩,
      List.forall_mem_singleton.2 ⟨_, .tail _ (.tail _ (.tail _ (.tail _ (.tail _ (.head _))))), by decide⟩⟩
  have hkeys : (defaultManifest.map Prod.fst).Nodup := by decide +kernel
  intro name hname
  obtain ⟨entries, hentries, hnodup⟩ := hsections name hname
  obtain ⟨modules, hmodules, hspec⟩ := dependencies_eq_map hnodup
  exact ⟨modules, hmodules ▸ (Holds.of_mem hentries hkeys).lookup?, hspec⟩

theorem areDefaults_defaultManifest : AreDefaults defaultManifest := fun name hname v hv => by
  obtain ⟨modules, hmodules, hmapping, -⟩ := default_section name hname
  rw [hmodules] at hv
  exact ⟨modules, (Option.some.inj hv).symm, hmapping⟩

theorem areRead_defaultManifest : Json.AreRead defaultManifest := by
  have hkey (s : String) : ∃ key, Value.text s = .text key ∧ Json.IsJoined key := ⟨s, rfl, Json.isJoined_ofString s⟩
  have hsection {entries : List (String × String)} (h : (entries.map Prod.fst).Nodup) :
      Json.IsData (dependencies entries) := by
    obtain ⟨modules, hmodules, -, hread⟩ := dependencies_eq_map h
    exact hmodules ▸ hread.areEntries
  have htext (s : String) : Json.IsData (.text s) := Json.isJoined_ofString s
  refine List.forall_mem_cons.2 ⟨⟨hkey _, htext _⟩, List.forall_mem_cons.2 ⟨⟨hkey _, htext _⟩,
    List.forall_mem_cons.2 ⟨⟨hkey _, trivial⟩, List.forall_mem_cons.2 ⟨⟨hkey _, htext _⟩,
      List.forall_mem_cons.2 ⟨⟨hkey _, hsection (by decide)⟩,
        List.forall_mem_singleton.2 ⟨hkey _, hsection (by decide)⟩⟩⟩⟩⟩⟩

theorem hasKey_default (hname : name ∈ dependencySections) : hasKey (.text name) defaultManifest = true := by
  obtain ⟨modules, hmodules, -⟩ := default_section name hname
  cases hkey : hasKey (.text name) defaultManifest with
  | true => rfl
  | false =>
    rw [lookup?_eq_none_iff.2 hkey] at hmodules
    cases hmodules

theorem areRead_of_mergeSections (hread : Json.AreRead existing)
    (h : mergeSections defaultManifest existing dependencySections existing = .ok merged) : Json.AreRead merged := by
  refine forall_mergeSections (P := fun k => ∃ key, k = .text key ∧ Json.IsJoined key) (Q := Json.IsData)
    (fun name hname => ⟨name, rfl, ?_⟩) (fun name hname entries hentries => ?_) h hread
  · revert name
    decide
  · obtain ⟨modules, hmodules, -, hdata⟩ := default_section name hname
    refine mergeSection_areEntries (areDefaults_defaultManifest name hname) ?_ (fun w hw => ?_) hentries
    · rw [hmodules]
      exact hdata.areEntries
    · obtain ⟨k, hk⟩ := mem_of_lookup? hw
      exact (hread _ hk).2

/-- Nothing else is a manifest, as there are sections that it would have to get. -/
theorem mergeManifest_default_eq (hnull : v ≠ .null) (hmap : ∀ existing, v ≠ .map existing) :
    mergeManifest defaultManifest v = entriesOf v >>= fun _ => .error (.misuse .notAMapping) := by
  have hany : (dependencySections.any fun name => hasKey (.text name) defaultManifest) = true :=
    List.any_eq_true.2 ⟨"dependencies", List.mem_cons_self, hasKey_default List.mem_cons_self⟩
  cases v with
  | null => exact absurd rfl hnull
  | map existing => exact absurd rfl (hmap existing)
  | _ => simp only [mergeManifest, hany, if_true]

/-- **A manifest with the defaults merged into it** is a mapping of data that lists all of them. -/
theorem mergeManifest_default {v m : Value} (hv : Json.IsRead v) (h : mergeManifest defaultManifest v = .ok m) :
    ∃ merged, m = .map merged ∧ Json.AreRead merged ∧ ListsAll defaultManifest merged := by
  by_cases hmap : ∃ existing, v = .map existing
  · obtain ⟨existing, rfl⟩ := hmap
    obtain ⟨merged, hmerged, rfl⟩ := mergeManifest_map.1 h
    exact ⟨merged, rfl, areRead_of_mergeSections (hv.keys existing rfl) hmerged,
      listsAll_of_mergeSections areDefaults_defaultManifest hmerged⟩
  · by_cases hnull : v = .null
    · subst hnull
      cases h
      have hself : mergeSections defaultManifest defaultManifest dependencySections defaultManifest =
          .ok defaultManifest := by decide +kernel
      exact ⟨_, rfl, areRead_defaultManifest, listsAll_of_mergeSections areDefaults_defaultManifest hself⟩
    · rw [mergeManifest_default_eq hnull (not_exists.1 hmap)] at h
      obtain ⟨entries, -, h⟩ := bind_eq_ok.1 h
      cases h

/-! ## The file -/

theorem hasKey_reread {t : Text} (h : hasKey (.text t) entries = true) :
    hasKey (.text t) (Json.rereadEntries entries) = true := by
  obtain ⟨v, hv⟩ := hasKey_text.1 h
  rw [Json.rereadEntries_eq]
  exact hasKey_text.2 ⟨Json.reread v, List.mem_map_of_mem (f := fun e : Value × Value => _) hv⟩

theorem holds_reread {t : Text} (hread : Json.AreRead entries) (h : Value.Holds (.text t) v entries) :
    Value.Holds (.text t) (Json.reread v) (Json.rereadEntries entries) := by
  refine ⟨hasKey_reread h.present, fun e he hsame => ?_⟩
  rw [Json.rereadEntries_eq] at he
  obtain ⟨e', he', rfl⟩ := List.mem_map.1 he
  -- The key was a text before.
  obtain ⟨⟨key, hkey, -⟩, -⟩ := hread e' he'
  rw [hkey] at hsame
  rw [h.only e' he' (by rw [hkey]; exact hsame)]

/-- What lists all the default modules still does when it is read back. -/
theorem ListsAll.reread (h : ListsAll defaultManifest merged) (hread : Json.AreRead merged) :
    ListsAll defaultManifest (ofEntries (Json.rereadEntries merged)) := by
  intro name hname _
  obtain ⟨entries, hholds, hentries⟩ := h name hname (by rw [isMerged, hasKey_default hname]; rfl)
  refine ⟨ofEntries (Json.rereadEntries entries), holds_ofEntries (holds_reread hread hholds), fun e he => ?_⟩
  have hkey := hentries e he
  obtain ⟨modules, hmodules, -, htexts⟩ := default_section name hname
  rw [hmodules] at he
  obtain ⟨⟨module, hmodule, -⟩, -⟩ := htexts e he
  rw [hmodule] at hkey ⊢
  rw [hasKey_ofEntries]
  exact hasKey_reread hkey

theorem isPlain_unifyLineEnds {t : Text} (h : Json.IsPlain t) : Json.IsPlain (unifyLineEnds t) := by
  fun_induction unifyLineEnds t with
  | case1 => exact h
  | case2 t ih => exact List.forall_mem_cons.2 ⟨⟨'\n', rfl⟩, ih (h.of_suffix ⟨[.scalar '\r', .scalar '\n'], rfl⟩)⟩
  | case3 c t _ ih =>
    refine List.forall_mem_cons.2 ⟨?_, ih (h.of_suffix (List.suffix_cons c t))⟩
    split
    · exact ⟨'\n', rfl⟩
    · exact h c List.mem_cons_self

theorem isPlain_of_readText {disk : Disk} {p : Path} {t : Text} (h : disk.readText p = .ok t) : Json.IsPlain t := by
  obtain ⟨bytes, -, h⟩ := bind_eq_ok.1 h
  split at h
  · rename_i t' ht'
    cases h
    obtain ⟨s, -, rfl⟩ := Option.map_eq_some_iff.1 ht'
    exact isPlain_unifyLineEnds (Json.isPlain_ofChars s.toList)
  · cases h

theorem isPlain_of_readText? {disk : Disk} {p : Path} {t : Text} (h : disk.readText? p = .ok (some t)) :
    Json.IsPlain t := by
  obtain ⟨held, -, h⟩ := bind_eq_ok.1 h
  split at h
  · obtain ⟨t', ht', heq⟩ := map_eq_ok.1 h
    cases heq
    exact isPlain_of_readText ht'
  · cases h

/-- What a manifest is read as. -/
theorem isRead_of_manifestValue {disk : Disk} {p : Path} (h : (do manifestValue p (← disk.readText? p)) = .ok v) :
    Json.IsRead v := by
  obtain ⟨content, hcontent, h⟩ := bind_eq_ok.1 h
  cases content with
  | none =>
    cases h
    exact ⟨trivial, nofun⟩
  | some t =>
    unfold manifestValue at h
    dsimp only at h
    cases hparse : Json.parse t with
    | error =>
      rw [hparse] at h
      cases h
    | ok w =>
      rw [hparse] at h
      cases h
      exact Json.parse_isRead (isPlain_of_readText? hcontent) hparse

theorem unifyLineEnds_manifestText (v : Value) : unifyLineEnds (manifestText v) = manifestText v := by
  refine unifyLineEnds_of_not_mem fun hmem => ?_
  obtain hmem | hmem := List.mem_append.1 hmem
  · exact absurd (List.all_eq_true.1 (Json.render_ascii v) _ hmem) (by decide)
  · exact absurd hmem (by decide)

/-- **A manifest that was processed is left by the next run.** -/
theorem updateManifest_again {p : Path} {disk disk' : Disk} {b : Bool} (h : (updateManifest p).Takes disk b disk') :
    (updateManifest p).Takes disk' false disk' := by
  refine updateManifest_takes_nothing.2 ⟨rfl, ?_⟩
  cases b with
  | false =>
    obtain ⟨rfl, hcomplete⟩ := updateManifest_takes_nothing.1 h
    exact hcomplete
  | true =>
    unfold updateManifest at h
    obtain ⟨existing, hexisting, h₁⟩ := Edit.Takes.of_ask_bind h
    obtain ⟨m, hm, h₂⟩ := Edit.Takes.of_same_bind (Edit.Moves.ofOutcome _) h₁
    obtain ⟨hvalue, -⟩ := Edit.Takes.of_ofOutcome hm
    split at h₂
    · cases (h₂.eq_of_pure).1
    · obtain ⟨u, disk₁, hwrite, h₃⟩ := Edit.Takes.of_bind h₂
      obtain ⟨-, rfl⟩ := (Edit.Takes.of_log_bind h₃).eq_of_pure
      obtain ⟨merged, rfl, hread, hall⟩ := mergeManifest_default (isRead_of_manifestValue hexisting) hvalue
      have htext := (writeAtomically_readText hwrite).1
      rw [unifyLineEnds_manifestText] at htext
      refine ⟨Json.reread (.map merged), ?_, mergeManifest_of_listsAll areDefaults_defaultManifest (hall.reread hread)⟩
      rw [readText?_of_readText htext]
      change (Json.parse (Json.render (.map merged) ++ "\n")).mapError _ = _
      rw [Json.parse_render hread.isRead.isData]
      rfl

/-- **Merging the defaults into a manifest settles it**: it keeps what the manifest has, adds the missing modules, and
leaves what it has made; and so does processing the file again. -/
theorem manifest_settles :
    (∀ defaults existing, AreDefaults defaults → HasSections existing →
      ∃ merged, mergeManifest defaults (.map existing) = .ok (.map merged) ∧ Completes defaults existing merged ∧
        mergeManifest defaults (.map merged) = .ok (.map merged)) ∧
    ∀ p disk disk' b logs, (updateManifest p).perform disk = (disk', .ok b, logs) →
      ∃ logs', (updateManifest p).perform disk' = (disk', .ok false, logs') := by
  refine ⟨fun _ _ => exists_completes, fun p disk disk' b logs h => ?_⟩
  exact ((updateManifest_steady p).gives (updateManifest_again (.of_perform h))).perform

/-- A disk whose manifest pins the version of a module. -/
def pinnedDisk : Disk where
  items := [(["package.json"],
    .file "\x7b\"name\":\"mine\",\"dependencies\":\x7b\"express\":\"4.0.0\"\x7d\x7d".toUTF8.toList)]

theorem manifest_settles_pinned :
    (∃ merged, mergeManifest defaultManifest (.map [("name", "mine"), ("dependencies", .map [("express", "4.0.0")]),
        ("devDependencies", .null)]) = .ok (.map merged) ∧
      Completes defaultManifest [("name", "mine"), ("dependencies", .map [("express", "4.0.0")]), ("devDependencies", .null)]
        merged ∧ mergeManifest defaultManifest (.map merged) = .ok (.map merged)) ∧
    ∃ disk logs logs', (updateManifest (Path.child {} "package.json")).perform pinnedDisk = (disk, .ok true, logs) ∧
      (updateManifest (Path.child {} "package.json")).perform disk = (disk, .ok false, logs') := by
  constructor
  · refine manifest_settles.1 _ _ areDefaults_defaultManifest (List.forall_mem_cons.2 ⟨fun v hv => ?_,
      List.forall_mem_singleton.2 fun v hv => ?_⟩)
    · rw [(Holds.of_mem (.tail _ (.head _)) (by decide +kernel)).lookup?] at hv
      exact .inr ⟨_, (Option.some.inj hv).symm⟩
    · rw [(Holds.of_mem (.tail _ (.tail _ (.head _))) (by decide +kernel)).lookup?] at hv
      exact .inl (Option.some.inj hv).symm
  · generalize hp : (updateManifest (Path.child {} "package.json")).perform pinnedDisk = run
    have hrun : run.2.1 = .ok true := by
      rw [← hp]
      decide +kernel
    obtain ⟨disk, r, logs⟩ := run
    cases hrun
    obtain ⟨logs', hagain⟩ := manifest_settles.2 _ _ _ _ _ hp
    exact ⟨disk, logs, logs', rfl, hagain⟩

end ApiRoutes.Project
