import ApiRoutes.Disk.Change
import ApiRoutes.Proofs.Inspection
/-!
# Records do not matter

What an edit does is the same whatever was logged before it (`Edit.Steady`), so a run from somewhere in
the middle of another one is a run of its own.
-/
namespace ApiRoutes
namespace Edit

variable {σ α β γ : Type}

/-- The edit does the same whatever the records before it. -/
def Steady (e : Edit σ α) : Prop := ∀ s l, (e.runFrom s l).1 = (e.runFrom s []).1

theorem Looks.steady {f : σ → Outcome α} {e : Edit σ α} (h : Looks f e) : e.Steady := fun s l => by
  obtain ⟨l₁, h₁⟩ := h s l
  obtain ⟨l₂, h₂⟩ := h s []
  rw [h₁, h₂]

namespace Steady

variable {e : Edit σ α} {f : α → Edit σ β} {s s' : σ} {a : α} {x : Failure}

theorem pure (a : α) : (Pure.pure a : Edit σ α).Steady := (Looks.pure a).steady

theorem throw (x : Failure) : (throw x : Edit σ α).Steady := (Looks.throw x).steady

theorem log (v : Level) (t : Text) : (log v t : Edit σ Unit).Steady := (Looks.log v t).steady

theorem ask (g : σ → Outcome α) : (ask g).Steady := (Looks.ask g).steady

theorem ofOutcome (r : Outcome α) : (ofOutcome r : Edit σ α).Steady := (Looks.ofOutcome r).steady

theorem ofLogged (r : List Record × Outcome α) : (ofLogged r : Edit σ α).Steady := (Looks.ofLogged r).steady

theorem modify (g : σ → σ) : (modify g : Edit σ Unit).Steady := fun _ _ => rfl

theorem get : (get : Edit σ σ).Steady := fun _ _ => rfl

/-- The state and the result after a step are the ones from which the next step starts. -/
theorem bind (he : e.Steady) (hf : ∀ a, (f a).Steady) : (e >>= f).Steady := fun s l => by
  have h := he s l
  rw [runFrom_bind, runFrom_bind]
  rcases h₁ : e.runFrom s l with ⟨⟨x | a, s₁⟩, l₁⟩ <;> rcases h₂ : e.runFrom s [] with ⟨⟨y | b, s₂⟩, l₂⟩ <;>
    rw [h₁, h₂] at h <;> cases h
  · rfl
  · exact (hf a s₁ l₁).trans (hf a s₁ l₂).symm

theorem tryCatch {k : Failure → Edit σ α} (he : e.Steady) (hk : ∀ x, (k x).Steady) : (tryCatch e k).Steady :=
  fun s l => by
    have h := he s l
    rw [runFrom_tryCatch, runFrom_tryCatch]
    rcases h₁ : e.runFrom s l with ⟨⟨x | a, s₁⟩, l₁⟩ <;> rcases h₂ : e.runFrom s [] with ⟨⟨y | b, s₂⟩, l₂⟩ <;>
      rw [h₁, h₂] at h <;> cases h
    · exact (hk x s₁ l₁).trans (hk x s₁ l₂).symm
    · rfl

theorem andThen (he : e.Steady) (g : σ → σ) : (andThen e g).Steady := fun s l => by
  rw [runFrom_andThen, runFrom_andThen, he s l]

theorem mapM {g : γ → Edit σ β} (hg : ∀ x, (g x).Steady) : ∀ xs : List γ, (xs.mapM g).Steady
  | [] => by
    rw [List.mapM_nil]
    exact pure _
  | x :: xs => by
    rw [List.mapM_cons]
    exact (hg x).bind fun _ => (mapM hg xs).bind fun _ => pure _

theorem takes_iff (he : e.Steady) : e.Takes s a s' ↔ (e.perform s).1 = s' ∧ (e.perform s).2.1 = .ok a := by
  rw [perform_eq]
  constructor
  · rintro ⟨l, l', h⟩
    have hs := he s l
    rw [h] at hs
    rw [← hs]
    exact ⟨rfl, rfl⟩
  · rintro ⟨hs, ha⟩
    exact ⟨[], _, Prod.ext (Prod.ext ha hs) rfl⟩

theorem gives (he : e.Steady) (h : e.Takes s a s') : e.Gives s a s' := fun l => by
  obtain ⟨l₁, l₂, h⟩ := h
  refine ⟨(e.runFrom s l).2, Prod.ext ?_ rfl⟩
  rw [he s l, ← he s l₁, h]

/-- An edit gives one result and leaves one state. -/
theorem takes_unique {b : α} {t : σ} (he : e.Steady) (h : e.Takes s a s') (h' : e.Takes s b t) : a = b ∧ s' = t := by
  obtain ⟨hs, ha⟩ := he.takes_iff.1 h
  obtain ⟨ht, hb⟩ := he.takes_iff.1 h'
  exact ⟨Except.ok.inj (ha.symm.trans hb), hs.symm.trans ht⟩

theorem not_fails {t : σ} (he : e.Steady) (h : e.Takes s a s') : ¬ e.Fails s x t := by
  rintro ⟨l, l', hf⟩
  obtain ⟨k, k', ht⟩ := h
  have hsame := (he s k).trans (he s l).symm
  rw [ht, hf] at hsame
  cases hsame

end Steady
end Edit

namespace Disk

open Edit

theorem permit_steady (deed : Deed) (l : Location) (p : Path) : (permit deed l p).Steady :=
  Steady.get.bind fun d => by
    split
    · exact .throw _
    · exact .pure _

theorem makeFolder_steady (p : Path) : (makeFolder p).Steady := by
  unfold makeFolder
  refine (Steady.ask _).bind fun l => Steady.get.bind fun d => ?_
  split
  · rw [throw_bind]
    exact .throw _
  · exact (permit_steady _ _ _).bind fun _ => .modify _

theorem unlessFolder_steady (p : Path) (f : Failure) : (unlessFolder p f).Steady := by
  unfold unlessFolder
  split
  · refine (Steady.ask _).bind fun b => ?_
    split
    · exact .throw _
    · exact .pure _
  · exact .throw _

theorem ensureFolder_steady (p : Path) : (ensureFolder p).Steady := by
  refine (makeFolder_steady p).tryCatch fun f => ?_
  split
  · exact .throw _
  · exact unlessFolder_steady p _

theorem ensureFoldersBack_steady (root : Text) : ∀ names : List Text, (ensureFoldersBack root names).Steady
  | [] => ensureFolder_steady _
  | name :: above => by
    refine (makeFolder_steady _).tryCatch fun f => ?_
    split
    · exact (ensureFoldersBack_steady root above).bind fun _ => ensureFolder_steady _
    · exact unlessFolder_steady _ _

theorem fillFile_steady (l : Location) (p : Path) (t : Text) : (fillFile l p t).Steady := by
  unfold fillFile
  cases t.toUtf8? with
  | none => exact .throw _
  | some bytes => exact (permit_steady _ _ _).bind fun _ => .modify _

theorem createTemporary_steady (folder : Path) (avoided : Text) : (createTemporary folder avoided).Steady := by
  unfold createTemporary
  refine (Steady.ask _).bind fun l => Steady.get.bind fun d => ?_
  split
  · exact .throw _
  · exact (permit_steady _ _ _).bind fun _ => (Steady.modify _).bind fun _ => .pure _

theorem renameFile_steady (l : Location) (p : Path) : (renameFile l p).Steady := by
  unfold renameFile
  refine (Steady.ask _).bind fun m => ?_
  dsimp only
  split
  · rw [throw_bind]
    exact .throw _
  · refine Steady.get.bind fun d => ?_
    split
    · rw [throw_bind]
      exact .throw _
    · refine (permit_steady _ _ _).bind fun _ => ?_
      split
      · exact .modify _
      · exact .throw _

/-- **Writing a file does the same whatever was logged before.** -/
theorem writeAtomically_steady (p : Path) (t : Text) : (writeAtomically p t).Steady :=
  (ensureFoldersBack_steady _ _).bind fun _ => (Steady.ask _).bind fun _ =>
    (createTemporary_steady _ _).bind fun _ =>
      ((fillFile_steady _ _ _).bind fun _ => renameFile_steady _ _).andThen _

theorem writeFile_steady (p : Path) (t : Text) : (writeFile p t).Steady := by
  unfold writeFile
  refine (Steady.ask _).bind fun l => Steady.get.bind fun d => ?_
  split
  · rw [throw_bind]
    exact .throw _
  · exact (permit_steady _ _ _).bind fun _ => fillFile_steady _ _ _

end Disk
end ApiRoutes
