import ApiRoutes.Proofs.Edit
import ApiRoutes.Proofs.Outcomes
/-!
# Edits that only look

An edit that leaves the state as it is gives what a function of the state gives (`Edit.Looks`): the
records before it do not matter, and it can be left out of what is said about the state.
-/
namespace ApiRoutes

namespace Edit

variable {σ α β γ : Type}

/-- The edit gives what the function makes of the state, and leaves the state as it is. -/
def Looks (f : σ → Outcome α) (e : Edit σ α) : Prop := ∀ s l, ∃ l', e.runFrom s l = ((f s, s), l')

namespace Looks

variable {f : σ → Outcome α} {e : Edit σ α} {s s' : σ} {a : α}

theorem pure (a : α) : Looks (fun _ => .ok a) (Pure.pure a : Edit σ α) := fun _ l => ⟨l, rfl⟩

theorem throw (x : Failure) : Looks (fun _ => .error x) (throw x : Edit σ α) := fun _ l => ⟨l, rfl⟩

theorem log (v : Level) (t : Text) : Looks (fun _ => .ok ()) (log v t : Edit σ Unit) := fun _ _ => ⟨_, rfl⟩

theorem ofOutcome (r : Outcome α) : Looks (fun _ => r) (ofOutcome r : Edit σ α) := fun _ l => ⟨l, rfl⟩

theorem ask (f : σ → Outcome α) : Looks f (ask f) := fun _ l => ⟨l, rfl⟩

theorem bind {g : α → σ → Outcome β} {k : α → Edit σ β} (he : Looks f e) (hk : ∀ a, Looks (g a) (k a)) :
    Looks (fun s => f s >>= (g · s)) (e >>= k) := fun s l => by
  obtain ⟨l₁, h₁⟩ := he s l
  rw [runFrom_bind, h₁]
  cases hf : f s with
  | error x => exact ⟨l₁, by simp only [hf]; rfl⟩
  | ok a =>
    obtain ⟨l₂, h₂⟩ := hk a s l₁
    exact ⟨l₂, by simp only [hf]; exact h₂⟩

theorem congr {g : σ → Outcome α} (he : Looks f e) (h : ∀ s, g s = f s) : Looks g e := by
  rwa [show g = f from funext h]

theorem log_bind {k : Unit → Edit σ β} {g : σ → Outcome β} (v : Level) (t : Text) (hk : Looks g (k ())) :
    Looks g (Edit.log v t >>= k) := fun s l => by
  rw [runFrom_bind, runFrom_log]
  exact hk s _

theorem tryCatch {g : Failure → σ → Outcome α} {k : Failure → Edit σ α} (he : Looks f e)
    (hk : ∀ x, Looks (g x) (k x)) :
    Looks (fun s => MonadExceptOf.tryCatch (f s) (g · s)) (tryCatch e k) := fun s l => by
  obtain ⟨l₁, h₁⟩ := he s l
  rw [runFrom_tryCatch, h₁]
  cases hf : f s with
  | error x =>
    obtain ⟨l₂, h₂⟩ := hk x s l₁
    exact ⟨l₂, by simp only [hf]; exact h₂⟩
  | ok a => exact ⟨l₁, by simp only [hf]; rfl⟩

theorem mapM {g : γ → σ → Outcome β} {k : γ → Edit σ β} (hk : ∀ x, Looks (g x) (k x)) :
    ∀ xs : List γ, Looks (fun s => xs.mapM (g · s)) (xs.mapM k)
  | [] => by
    simp only [List.mapM_nil]
    exact pure _
  | x :: xs => by
    simp only [List.mapM_cons]
    exact (hk x).bind fun _ => (mapM hk xs).bind fun _ => pure _

theorem forM {k : γ → Edit σ PUnit} (hk : ∀ x, Looks (fun _ => .ok ()) (k x)) :
    ∀ xs : List γ, Looks (fun _ => .ok ()) (xs.forM k)
  | [] => pure _
  | x :: xs => (hk x).bind fun _ => forM hk xs

theorem ofLogged (r : List Record × Outcome α) : Looks (fun _ => r.2) (ofLogged r : Edit σ α) :=
  (forM (fun _ => log _ _) _).bind fun _ => ofOutcome _

theorem takes (h : Looks f e) (ht : e.Takes s a s') : f s = .ok a ∧ s' = s := by
  obtain ⟨l, l', ht⟩ := ht
  obtain ⟨l₁, h₁⟩ := h s l
  rw [h₁, Prod.mk.injEq, Prod.mk.injEq] at ht
  exact ⟨ht.1.1, ht.1.2.symm⟩

theorem gives (h : Looks f e) (ha : f s = .ok a) : e.Gives s a s := fun l => by
  obtain ⟨l', hl⟩ := h s l
  exact ⟨l', by rw [hl, ha]⟩

theorem moves {R : σ → σ → Prop} [IsPreorder σ R] (h : Looks f e) : e.Moves R := Moves.of_same fun s l => by
  obtain ⟨l', hl⟩ := h s l
  rw [hl]

end Looks
end Edit
end ApiRoutes
