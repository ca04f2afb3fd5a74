import ApiRoutes.Proofs.Disk.Files
/-!
# Looking at a disk before and after a change

On a disk that is a tree (`Disk.IsTree`) everything that there is can be reached, and a path that does
not go up again once it has left the folders that there are (`Disk.straight`) finds what there is at its
place.  So what is read by such a path after folders were added, and files elsewhere, could have been
read before (`readText?_before`).
-/
namespace ApiRoutes
namespace Disk

variable {d d' : Disk} {p q : Path} {l m : Location} {i : Item}

/-- Everything is in a folder. -/
def IsTree (d : Disk) : Prop := ∀ l name i, d.item? (l ++ [name]) = some i → d.item? l = some .folder

theorem isTree_of_items (h : ∀ e ∈ d.items, e.1 ≠ [] → d.item? e.1.dropLast = some .folder) : d.IsTree := by
  intro l name i hi
  by_cases hhere : l ++ [name] <+: d.here
  · exact item?_of_here ((List.prefix_append l [name]).trans hhere)
  · unfold item? at hi
    rw [if_neg (by rwa [List.isPrefixOf_iff_prefix])] at hi
    obtain ⟨e, he, -⟩ := Option.map_eq_some_iff.1 hi
    have hl : e.1 = l ++ [name] := by simpa using List.find?_some he
    have hfolder := h e (List.mem_of_find?_eq_some he) (by simp [hl])
    rwa [hl, List.dropLast_concat] at hfolder

/-- What is above something on a tree is a folder. -/
theorem IsTree.above (h : d.IsTree) : ∀ {names : List Text} {l : Location}, names ≠ [] →
    d.item? (l ++ names) ≠ none → d.item? l = some .folder
  | [], _, hne, _ => absurd rfl hne
  | [name], l, _, hi => by
    obtain ⟨i, hi⟩ := Option.ne_none_iff_exists'.1 hi
    exact h l name i hi
  | name :: next :: rest, l, _, hi => by
    rw [← List.singleton_append, ← List.append_assoc] at hi
    exact h l name .folder (h.above (List.cons_ne_nil next rest) hi)

/-! ## Paths that do not turn back -/

/-- Once the way leaves the folders that there are, it does not go up again. -/
def straightFrom (d : Disk) (l : Location) : List Text → Bool
  | [] => true
  | name :: rest =>
    if d.item? l = some .folder then straightFrom d (further l name) rest else !(name :: rest).contains Path.up

def straight (d : Disk) (p : Path) : Bool := straightFrom d (if p.root.isEmpty then d.here else []) p.names

theorem straightFrom_of_not_mem : ∀ {names : List Text} {l : Location}, Path.up ∉ names → straightFrom d l names = true
  | [], _, _ => rfl
  | name :: rest, l, hup => by
    unfold straightFrom
    split
    · exact straightFrom_of_not_mem fun h => hup (List.mem_cons_of_mem _ h)
    · simpa using hup

theorem straightFrom_append {more : List Text} (hup : Path.up ∉ more) : ∀ {names : List Text} {l : Location},
    straightFrom d l names = true → straightFrom d l (names ++ more) = true
  | [], l, _ => straightFrom_of_not_mem hup
  | name :: rest, l, h => by
    rw [List.cons_append]
    unfold straightFrom at h ⊢
    split
    · rename_i hfolder
      rw [if_pos hfolder] at h
      exact straightFrom_append hup h
    · rename_i hfolder
      rw [if_neg hfolder] at h
      simp only [Bool.not_eq_true', List.contains_eq_mem, decide_eq_false_iff_not] at h ⊢
      simp only [List.mem_cons, List.mem_append, not_or] at h ⊢
      exact ⟨h.1, h.2, hup⟩

/-- Names after a place on the way that is no folder do not go up. -/
theorem straightFrom_drop : ∀ {names : List Text} {l : Location} (k : Nat), straightFrom d l names = true →
    d.item? ((names.take k).foldl further l) ≠ some .folder → Path.up ∉ names.drop k
  | [], _, k, _, _ => by simp
  | name :: rest, l, 0, h, hitem => by
    unfold straightFrom at h
    rw [if_neg (by simpa using hitem)] at h
    simpa using h
  | name :: rest, l, k + 1, h, hitem => by
    unfold straightFrom at h
    rw [List.drop_succ_cons]
    split at h
    · exact straightFrom_drop k h (by simpa using hitem)
    · simp only [Bool.not_eq_true', List.contains_eq_mem, decide_eq_false_iff_not, List.mem_cons, not_or] at h
      exact fun hup => h.2 (List.mem_of_mem_drop hup)

/-! ## Folders that are made -/

/-- Both disks have the same at the places that satisfy `P`. -/
structure SameItems (P : Location → Prop) (d d' : Disk) : Prop where
  here : d'.here = d.here
  items : ∀ m, P m → d'.item? m = d.item? m

instance {P : Location → Prop} : IsPreorder Disk (SameItems P) where
  refl _ := ⟨rfl, fun _ _ => rfl⟩
  trans _ _ _ h h' := ⟨h'.here.trans h.here, fun m hm => (h'.items m hm).trans (h.items m hm)⟩

section Folders

variable {P : Location → Prop}

theorem makeFolder_items (h : ∀ m, P m → m ≠ d.place p) : (makeFolder p).MovesFrom (SameItems P) d := by
  unfold makeFolder
  refine .bind (Edit.Moves.ask _ d) fun l d₁ hl => ?_
  obtain ⟨hl, rfl⟩ := hl.of_ask
  obtain rfl := eq_place_of_find hl
  refine Edit.MovesFrom.get_bind ?_
  split
  · rw [Edit.throw_bind]
    exact Edit.Moves.throw _ d₁
  · refine Edit.Moves.from_bind (permit_same _ _ _) fun _ records => ⟨rfl, fun m hm => ?_⟩
    change (put (d₁.place p) .folder d₁).item? m = d₁.item? m
    rw [item?_put, if_neg (h m hm).symm]
    split
    · rename_i hhere
      exact (item?_of_here hhere).symm
    · rfl

theorem ensureFolder_items (h : ∀ m, P m → m ≠ d.place p) : (ensureFolder p).MovesFrom (SameItems P) d := by
  refine .tryCatch (makeFolder_items h) fun f d₁ _ => ?_
  split
  · exact Edit.Moves.throw _ d₁
  · exact unlessFolder_moves p _ d₁

theorem ensureFoldersBack_items (root : Text) : ∀ {names : List Text} {d : Disk},
    (∀ t, t <:+ names → ∀ m, P m → m ≠ d.place ⟨root, t.reverse⟩) →
      (ensureFoldersBack root names).MovesFrom (SameItems P) d
  | [], d, h => ensureFolder_items (h [] (List.suffix_refl _))
  | name :: above, d, h => by
    refine .tryCatch (makeFolder_items (h _ (List.suffix_refl _))) fun f d₁ hf => ?_
    have h₁ := hf.movesFrom (makeFolder_items (h _ (List.suffix_refl _)))
    split
    · refine .bind (ensureFoldersBack_items root fun t ht m hm => ?_) fun _ d₂ htakes => ?_
      · rw [place_congr h₁.here]
        exact h t (ht.trans (List.suffix_cons _ _)) m hm
      · have h₂ : SameItems P d₁ d₂ := htakes.movesFrom (ensureFoldersBack_items root fun t ht m hm => by
          rw [place_congr h₁.here]
          exact h t (ht.trans (List.suffix_cons _ _)) m hm)
        refine ensureFolder_items fun m hm => ?_
        rw [place_congr h₂.here, place_congr h₁.here]
        exact h _ (List.suffix_refl _) m hm
    · exact unlessFolder_moves _ _ d₁

/-- **Only folders on the way are made.** -/
theorem ensureFolders_items (h : ∀ k m, P m → m ≠ d.place ⟨p.root, p.names.take k⟩) :
    (ensureFolders p).MovesFrom (SameItems P) d := by
  refine ensureFoldersBack_items p.root fun t ht m hm => ?_
  have hprefix : t.reverse <+: p.names := by
    rw [← List.reverse_suffix, List.reverse_reverse]
    exact ht
  rw [List.prefix_iff_eq_take.1 hprefix]
  exact h _ m hm

end Folders

/-! ## What there is at a path -/

/-- On a tree there is nothing at the end of a straight way that is not open. -/
theorem walk_closed (htree : d.IsTree) {f : SystemFault} (hf : f = .notFound ∨ f = .notADirectory) :
    ∀ {names : List Text} {l : Location}, straightFrom d l names = true → d.walk l names = .error f →
      d.item? (names.foldl further l) = none
  | [], l, _, h => by cases h
  | name :: rest, l, hs, h => by
    unfold straightFrom at hs
    unfold walk at h
    by_cases hfolder : d.item? l = some .folder
    · rw [if_pos hfolder] at hs
      rw [hfolder] at h
      unfold further at hs
      rw [List.foldl_cons, further]
      by_cases hup : name == Path.up
      · rw [if_pos hup] at h hs ⊢
        exact walk_closed htree hf hs h
      · simp only [hup, if_false, Bool.false_eq_true] at h hs ⊢
        split at h
        · obtain rfl | rfl := hf <;> cases h
        · exact walk_closed htree hf hs h
    · rw [if_neg hfolder, Bool.not_eq_true', List.contains_eq_mem, decide_eq_false_iff_not] at hs
      rw [foldl_further hs]
      by_contra hi
      exact hfolder (htree.above (List.cons_ne_nil _ _) hi)

/-- A way that breaks off for another reason than what there is does so with more folders, too. -/
theorem walk_fault_mono (h : ∀ m, d.item? m = some .folder → d'.item? m = some .folder) {f : SystemFault}
    (hf : f ≠ .notFound ∧ f ≠ .notADirectory) : ∀ {names : List Text} {l : Location},
      d.walk l names = .error f → d'.walk l names = .error f
  | [], l, hw => by cases hw
  | name :: rest, l, hw => by
    unfold walk at hw ⊢
    by_cases hfolder : d.item? l = some .folder
    · rw [hfolder] at hw
      rw [h l hfolder]
      by_cases hup : name == Path.up
      · simp only [hup, if_true] at hw ⊢
        exact walk_fault_mono h hf hw
      · by_cases hlong : nameLimit < name.nameSize?.getD 0
        · simp only [hup, hlong, if_false, if_true, Bool.false_eq_true] at hw ⊢
          exact hw
        · simp only [hup, hlong, if_false, Bool.false_eq_true] at hw ⊢
          exact walk_fault_mono h hf hw
    · cases hi : d.item? l with
      | none =>
        rw [hi] at hw
        cases hw
        exact absurd rfl hf.1
      | some i =>
        cases i with
        | folder => exact absurd hi hfolder
        | file bytes =>
          rw [hi] at hw
          cases hw
          exact absurd rfl hf.2

theorem at?_of_locate (hc : p.check = .ok ()) (h : d.locate p = .ok l) : d.at? p = .ok (d.item? l) := by
  unfold at?
  rw [hc, h]

theorem at?_of_check {f : Failure} (hc : p.check = .error f) : d.at? p = .ok none := by
  unfold at?
  rw [hc]

/-- What there is at a path, unless asking fails: what the way leads to, or nothing when it is closed. -/
theorem at?_ok {x : Option Item} (hc : p.check = .ok ()) (h : d.at? p = .ok x) :
    d.locate p = .ok (d.place p) ∧ x = d.item? (d.place p) ∨
      (d.locate p = .error .notFound ∨ d.locate p = .error .notADirectory) ∧ x = none := by
  unfold at? at h
  rw [hc] at h
  cases hl : d.locate p with
  | ok l =>
    rw [hl] at h
    cases h
    obtain rfl := eq_place_of_locate hl
    exact .inl ⟨rfl, rfl⟩
  | error f =>
    rw [hl] at h
    cases f <;> cases h
    · exact .inr ⟨.inl rfl, rfl⟩
    · exact .inr ⟨.inr rfl, rfl⟩

/-- **On a tree a straight path finds what there is at its place.** -/
theorem at?_place {x : Option Item} (htree : d.IsTree) (hs : d.straight p = true) (hc : p.check = .ok ())
    (h : d.at? p = .ok x) : x = d.item? (d.place p) := by
  obtain ⟨-, hx⟩ | ⟨hl, rfl⟩ := at?_ok hc h
  · exact hx
  · have hclosed : ∀ f, f = .notFound ∨ f = .notADirectory → d.locate p = .error f → d.item? (d.place p) = none := by
      intro f hf hl
      unfold locate at hl
      split at hl
      · obtain rfl | rfl := hf <;> cases hl
      · exact walk_closed htree hf hs hl
    obtain hl | hl := hl
    · exact (hclosed _ (.inl rfl) hl).symm
    · exact (hclosed _ (.inr rfl) hl).symm

theorem locate_fault_mono (here : d'.here = d.here) (h : ∀ m, d.item? m = some .folder → d'.item? m = some .folder)
    {f : SystemFault} (hf : f ≠ .notFound ∧ f ≠ .notADirectory) (hl : d.locate p = .error f) :
    d'.locate p = .error f := by
  unfold locate at hl ⊢
  split
  · rename_i hlong
    rwa [if_pos hlong] at hl
  · rename_i hlong
    rw [if_neg hlong] at hl
    rw [here]
    exact walk_fault_mono h hf hl

/-- What can be asked after folders were added could be asked before. -/
theorem at?_before {x' : Option Item} (here : d'.here = d.here)
    (h : ∀ m, d.item? m = some .folder → d'.item? m = some .folder) (hx : d'.at? p = .ok x') :
    ∃ x, d.at? p = .ok x := by
  unfold at? at hx ⊢
  cases hc : p.check with
  | error f => exact ⟨none, rfl⟩
  | ok u =>
    rw [hc] at hx
    cases hl : d.locate p with
    | ok l => exact ⟨_, rfl⟩
    | error f =>
      by_cases hf : f ≠ .notFound ∧ f ≠ .notADirectory
      · rw [locate_fault_mono here h hf hl] at hx
        cases f with
        | notFound => exact absurd rfl hf.1
        | notADirectory => exact absurd rfl hf.2
        | _ => cases hx
      · cases f with
        | notFound => exact ⟨none, rfl⟩
        | notADirectory => exact ⟨none, rfl⟩
        | _ => simp at hf

/-! ## Reading -/

/-- The text of what there is at a path; nothing when there is nothing. -/
def textOf (path : Text) (x : Option Item) : Outcome (Option Text) :=
  match x with
  | none => .ok none
  | some .folder => .error (.system .isADirectory path)
  | some (.file bytes) =>
    match Text.ofUtf8? bytes with
    | some t => .ok (some (unifyLineEnds t))
    | none => .error (.misuse .undecodable)

theorem readText?_of_at? {x : Option Item} (h : d.at? p = .ok x) : d.readText? p = textOf p.text x := by
  have hholds : d.holds p = .ok x.isSome := by
    unfold holds
    rw [h]
    rfl
  unfold readText?
  rw [hholds]
  cases x with
  | none => rfl
  | some i =>
    cases hc : p.check with
    | error f =>
      rw [at?_of_check hc] at h
      cases h
    | ok u =>
      obtain ⟨hl, hi⟩ | ⟨-, hi⟩ := at?_ok hc h
      · have hfind := find_of_locate hc hl
        have hread : d.readText p = (textOf p.text (some i)).map (·.getD []) := by
          unfold readText readBytes
          rw [hfind]
          simp only [bind, Except.bind, ← hi]
          cases i with
          | folder => rfl
          | file bytes =>
            unfold textOf
            simp only
            cases Text.ofUtf8? bytes <;> rfl
        simp only [Option.isSome_some, bind, Except.bind, if_true, hread]
        cases i with
        | folder => rfl
        | file bytes =>
          unfold textOf
          simp only
          cases Text.ofUtf8? bytes <;> rfl
      · cases hi

theorem readText?_of_readText {t : Text} (h : d.readText p = .ok t) : d.readText? p = .ok (some t) := by
  have hfind := find_of_readText h
  rw [readText?_of_at? (at?_of_locate (find_ok hfind).1 (find_ok hfind).2)]
  unfold readText readBytes at h
  rw [hfind] at h
  cases hi : d.item? (d.place p) with
  | none => simp [bind, Except.bind, hi] at h
  | some i =>
    cases i with
    | folder => simp [bind, Except.bind, hi] at h
    | file bytes =>
      cases ht : Text.ofUtf8? bytes with
      | none => simp [bind, Except.bind, hi, ht] at h
      | some u =>
        simp only [bind, Except.bind, hi, ht] at h
        cases h
        simp only [textOf, ht]

theorem at?_of_readText? {v : Option Text} (h : d.readText? p = .ok v) : ∃ x, d.at? p = .ok x ∧ textOf p.text x = .ok v := by
  cases hx : d.at? p with
  | error f =>
    unfold readText? holds at h
    rw [hx] at h
    cases h
  | ok x => exact ⟨x, rfl, (readText?_of_at? hx).symm.trans h⟩

/-- **What is read by a straight path after folders were added, and files at other places, could have been
read before.** -/
theorem readText?_before {v : Option Text} (htree : d.IsTree) (hs : d.straight p = true) (here : d'.here = d.here)
    (hfolders : ∀ m, d.item? m = some .folder → d'.item? m = some .folder)
    (hfile : ∀ bytes, d'.item? (d.place p) = some (.file bytes) ↔ d.item? (d.place p) = some (.file bytes))
    (h : d'.readText? p = .ok v) : d.readText? p = .ok v := by
  obtain ⟨x', hx', hv⟩ := at?_of_readText? h
  obtain ⟨x, hx⟩ := at?_before here hfolders hx'
  rw [readText?_of_at? hx]
  cases hc : p.check with
  | error f =>
    rw [at?_of_check hc] at hx hx'
    cases hx
    cases hx'
    exact hv
  | ok u =>
    obtain rfl := at?_place htree hs hc hx
    obtain ⟨-, rfl⟩ | ⟨hclosed, rfl⟩ := at?_ok hc hx'
    · -- The way is open afterwards: there is the same file, or no file before and after.
      rw [place_congr here] at hv
      cases hi' : d'.item? (d.place p) with
      | none =>
        rw [hi'] at hv
        cases hi : d.item? (d.place p) with
        | none => exact hv
        | some i =>
          cases i with
          | folder => rw [hfolders _ hi] at hi'; cases hi'
          | file bytes => rw [(hfile bytes).2 hi] at hi'; cases hi'
      | some i =>
        cases i with
        | folder => rw [hi'] at hv; cases hv
        | file bytes => rw [(hfile bytes).1 hi', ← hi']; exact hv
    · -- The way is closed afterwards, so it was closed before, and there was nothing at its end.
      obtain ⟨hl, -⟩ | ⟨-, hnone⟩ := at?_ok hc hx
      · rw [locate_mono here hfolders hl] at hclosed
        obtain h | h := hclosed <;> cases h
      · rw [hnone]
        exact hv

end Disk
end ApiRoutes
