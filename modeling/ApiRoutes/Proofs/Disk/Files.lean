import ApiRoutes.Proofs.Disk.Writing
/-!
# Which files a change touches

Two disks can have the same files at some places (`Disk.SameFiles`).  Making folders only adds folders
(`Disk.AddsFolders`); a file that is written atomically is the only one that changes, and when the
writing fails none does, however far it came (`writeAtomically_fails`).
-/
namespace ApiRoutes
namespace Disk

variable {d d' : Disk} {p : Path} {l m : Location} {i : Item} {P Q : Location → Prop}

/-- Both disks have the same files at the places that satisfy `P`. -/
structure SameFiles (P : Location → Prop) (d d' : Disk) : Prop where
  here : d'.here = d.here
  files : ∀ m, P m → ∀ bytes, d'.item? m = some (.file bytes) ↔ d.item? m = some (.file bytes)

instance : IsPreorder Disk (SameFiles P) where
  refl _ := ⟨rfl, fun _ _ _ => Iff.rfl⟩
  trans _ _ _ h h' := ⟨h'.here.trans h.here, fun m hm bytes => (h'.files m hm bytes).trans (h.files m hm bytes)⟩

namespace SameFiles

theorem refl (P : Location → Prop) (d : Disk) : SameFiles P d d := refl_of _ d

theorem trans {d'' : Disk} (h : SameFiles P d d') (h' : SameFiles P d' d'') : SameFiles P d d'' := trans_of _ h h'

theorem mono (h : SameFiles P d d') (hQ : ∀ m, Q m → P m) : SameFiles Q d d' :=
  ⟨h.here, fun m hm => h.files m (hQ m hm)⟩

theorem of_items (here : d'.here = d.here) (h : ∀ m, P m → d'.item? m = d.item? m) : SameFiles P d d' :=
  ⟨here, fun m hm bytes => by rw [h m hm]⟩

theorem place (h : SameFiles P d d') (p : Path) : d'.place p = d.place p := place_congr h.here p

end SameFiles

/-- The second disk has what the first one has, and beyond that only folders. -/
structure AddsFolders (d d' : Disk) : Prop where
  here : d'.here = d.here
  items : ∀ m, d'.item? m = d.item? m ∨ d.item? m = none ∧ d'.item? m = some .folder

instance : IsPreorder Disk AddsFolders where
  refl _ := ⟨rfl, fun _ => .inl rfl⟩
  trans _ _ _ h h' := ⟨h'.here.trans h.here, fun m => by
    obtain hm' | ⟨hm', hfolder⟩ := h'.items m
    · rw [hm']
      exact h.items m
    · obtain hm | ⟨-, hm⟩ := h.items m
      · exact .inr ⟨hm ▸ hm', hfolder⟩
      · rw [hm] at hm'
        cases hm'⟩

namespace AddsFolders

theorem trans {d'' : Disk} (h : AddsFolders d d') (h' : AddsFolders d' d'') : AddsFolders d d'' := trans_of _ h h'

theorem of_items (here : d'.here = d.here) (h : ∀ m, d'.item? m = d.item? m) : AddsFolders d d' :=
  ⟨here, fun m => .inl (h m)⟩

theorem grows (h : AddsFolders d d') : Grows d d' where
  here := h.here
  items m i hm := by
    obtain hm' | ⟨hm', -⟩ := h.items m
    · rw [hm', hm]
    · rw [hm'] at hm
      cases hm

theorem sameFiles (h : AddsFolders d d') : SameFiles P d d' where
  here := h.here
  files m _ bytes := by
    obtain hm | ⟨hm, hm'⟩ := h.items m
    · rw [hm]
    · rw [hm, hm']
      simp

end AddsFolders

theorem addsFolders_put (h : d.item? l = none) : AddsFolders d (put l .folder d) where
  here := rfl
  items m := by
    rw [item?_put]
    split
    · rename_i hhere
      exact .inl (item?_of_here hhere).symm
    · split
      · rename_i hlm
        exact .inr ⟨hlm ▸ h, rfl⟩
      · exact .inl rfl

theorem ensureFolders_adds (p : Path) : (ensureFolders p).Moves AddsFolders :=
  ensureFolders_moves (fun h => addsFolders_put h) p

theorem put_put (i j : Item) : put m i (put m j d) = put m i d := by
  simp [put, erase]

/-- A file in a free place that is erased again leaves the disk as it was. -/
theorem item?_erase_put (h : d.item? m = none) (x : Location) : (erase m (put m i d)).item? x = d.item? x := by
  have hmhere : ¬ m <+: d.here := not_here_of_item? (by simp [h])
  rw [item?_erase, item?_put, here_put]
  by_cases hx : x <+: d.here
  · rw [if_pos hx, item?_of_here hx]
  · by_cases hmx : m = x
    · rw [if_neg hx, if_pos hmx, ← hmx, h]
    · rw [if_neg hx, if_neg hmx, if_neg hx, if_neg hmx]

/-! ## Steps that change nothing when they fail -/

theorem createTemporary_fails {folder : Path} {avoided : Text} {x : Failure}
    (h : (createTemporary folder avoided).Fails d x d') : d' = d := by
  unfold createTemporary at h
  obtain h | ⟨k, -, h⟩ := Edit.Fails.of_same_bind (Edit.Moves.ask _) h
  · exact h
  · have h := Edit.Fails.of_get_bind h
    cases ht : d.temporaryPlace? k avoided with
    | none =>
      rw [ht] at h
      exact h.of_throw
    | some place =>
      rw [ht] at h
      obtain h | ⟨u, -, h⟩ := Edit.Fails.of_same_bind (permit_same _ _ _) h
      · exact h
      · obtain h | ⟨u, d₁, -, h⟩ := Edit.Fails.of_bind h
        · exact absurd h Edit.Fails.not_modify
        · exact absurd h Edit.Fails.not_pure

theorem fillFile_fails {t : Text} {x : Failure} (h : (fillFile l p t).Fails d x d') : d' = d := by
  unfold fillFile at h
  cases ht : t.toUtf8? with
  | none =>
    rw [ht] at h
    exact h.of_throw
  | some bytes =>
    rw [ht] at h
    obtain h | ⟨u, -, h⟩ := Edit.Fails.of_same_bind (permit_same _ _ _) h
    · exact h
    · exact absurd h Edit.Fails.not_modify

theorem renameFile_fails {x : Failure} (h : (renameFile l p).Fails d x d') : d' = d := by
  unfold renameFile at h
  obtain h | ⟨k, -, h⟩ := Edit.Fails.of_same_bind (Edit.Moves.ask _) h
  · exact h
  · dsimp only at h
    split at h
    · rw [Edit.throw_bind] at h
      exact h.of_throw
    · have h := Edit.Fails.of_get_bind h
      split at h
      · rw [Edit.throw_bind] at h
        exact h.of_throw
      · obtain h | ⟨u, -, h⟩ := Edit.Fails.of_same_bind (permit_same _ _ _) h
        · exact h
        · cases hi : d.item? l with
          | none =>
            rw [hi] at h
            exact h.of_throw
          | some i =>
            rw [hi] at h
            exact absurd h Edit.Fails.not_modify

/-! ## Atomic writes -/

/-- **A file that cannot be written leaves what making the folders above it leaves**, however far the writing
came. -/
theorem writeAtomically_fails_moves {R : Disk → Disk → Prop} [IsPreorder Disk R] {t : Text} {x : Failure}
    (hfolders : (ensureFolders p.parent).MovesFrom R d)
    (hsame : ∀ {d₁ d₂ : Disk}, d₂.here = d₁.here → (∀ m, d₂.item? m = d₁.item? m) → R d₁ d₂)
    (h : (writeAtomically p t).Fails d x d') : R d d' := by
  unfold writeAtomically at h
  obtain h | ⟨u, d₁, htakes, h⟩ := Edit.Fails.of_bind h
  · exact h.movesFrom hfolders
  · refine trans_of R (htakes.movesFrom hfolders) ?_
    obtain rfl | ⟨b, -, h⟩ := Edit.Fails.of_same_bind (Edit.Moves.ask _) h
    · exact refl_of _ _
    · obtain h | ⟨m, d₂, hcreate, h⟩ := Edit.Fails.of_bind h
      · rw [createTemporary_fails h]
        exact refl_of _ _
      · obtain ⟨name, -, -, hfree, rfl⟩ := createTemporary_takes hcreate
        obtain ⟨d₃, hsteps, rfl⟩ := Edit.Fails.of_andThen h
        obtain hfill | ⟨u, d₄, hfill, hrename⟩ := Edit.Fails.of_bind hsteps
        · rw [fillFile_fails hfill]
          exact hsame rfl (item?_erase_put hfree)
        · obtain ⟨bytes, -, rfl⟩ := fillFile_takes hfill
          rw [renameFile_fails hrename, put_put]
          exact hsame rfl (item?_erase_put hfree)

/-- **A file that cannot be written leaves all that there is**, and at most folders beside it. -/
theorem writeAtomically_fails {t : Text} {x : Failure} (h : (writeAtomically p t).Fails d x d') :
    AddsFolders d d' :=
  writeAtomically_fails_moves (ensureFolders_adds _ d) AddsFolders.of_items h

/-- A file that is written is the only one that changes. -/
theorem writeAtomically_changes {t : Text} {u : Unit} (h : (writeAtomically p t).Takes d u d') :
    SameFiles (· ≠ d.place p) d d' := by
  obtain ⟨d₁, bytes, hfolders, -, -, -, hhere, hafter⟩ := writeAtomically_steps h
  exact (hfolders.moves (ensureFolders_adds _)).sameFiles.trans (.of_items hhere fun x hx => by rw [hafter, if_neg hx])

/-- A write keeps the files at other places, also when it fails. -/
theorem writeAtomically_files {t : Text} (h : ∀ m, P m → m ≠ d.place p) :
    (writeAtomically p t).MovesFrom (SameFiles P) d :=
  .of_ends (fun _ _ ht => (writeAtomically_changes ht).mono h) fun _ _ hf => (writeAtomically_fails hf).sameFiles

/-! ## Plain writes -/

theorem writeFile_takes {t : Text} {u : Unit} (h : (writeFile p t).Takes d u d') :
    ∃ bytes, t.toUtf8? = some bytes ∧ d.find p = .ok (d.place p) ∧ d.item? (d.place p) ≠ some .folder ∧
      d' = put (d.place p) (.file bytes) d := by
  unfold writeFile at h
  obtain ⟨k, hk, h⟩ := Edit.Takes.of_ask_bind h
  obtain rfl := eq_place_of_find hk
  have h := Edit.Takes.of_get_bind h
  split at h
  · rw [Edit.throw_bind] at h
    exact absurd h Edit.Takes.not_throw
  · rename_i hfolder
    obtain ⟨u, -, h⟩ := Edit.Takes.of_same_bind (permit_same _ _ _) h
    obtain ⟨bytes, hbytes, rfl⟩ := fillFile_takes h
    exact ⟨bytes, hbytes, hk, hfolder, rfl⟩

theorem writeFile_fails {t : Text} {x : Failure} (h : (writeFile p t).Fails d x d') : d' = d := by
  unfold writeFile at h
  obtain h | ⟨k, -, h⟩ := Edit.Fails.of_same_bind (Edit.Moves.ask _) h
  · exact h
  · have h := Edit.Fails.of_get_bind h
    split at h
    · rw [Edit.throw_bind] at h
      exact h.of_throw
    · obtain h | ⟨u, -, h⟩ := Edit.Fails.of_same_bind (permit_same _ _ _) h
      · exact h
      · exact fillFile_fails h

theorem writeFile_files {t : Text} (h : ∀ m, P m → m ≠ d.place p) : (writeFile p t).MovesFrom (SameFiles P) d := by
  refine .of_ends (fun _ _ ht => ?_) fun _ _ hf => ?_
  · obtain ⟨bytes, -, -, -, rfl⟩ := writeFile_takes ht
    refine .of_items rfl fun m hm => ?_
    rw [item?_put, if_neg (h m hm).symm]
    split
    · rename_i hhere
      exact (item?_of_here hhere).symm
    · rfl
  · rw [writeFile_fails hf]
    exact .refl _ _

end Disk
end ApiRoutes
