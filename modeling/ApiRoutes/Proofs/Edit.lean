import ApiRoutes.Edit
import Mathlib.Data.List.Forall2
import Mathlib.Order.Defs.Unbundled
/-!
# Runs of edits

What each way of building an edit does to a state and to the records before it.  An edit that
succeeds is taken apart into steps that succeed (`Edit.Takes.of_bind`).  What all steps of an edit
do to the state, the edit does, also when it fails (`Edit.Moves`).
-/
namespace ApiRoutes
namespace Edit

variable {σ τ α β : Type}

/-- What an edit makes of a state, after some records. -/
def runFrom (e : Edit σ α) (s : σ) (l : List Record) : (Outcome α × σ) × List Record :=
  Id.run (((ExceptT.run e).run s).run l)

theorem perform_eq (e : Edit σ α) (s : σ) :
    e.perform s = ((e.runFrom s []).1.2, (e.runFrom s []).1.1, (e.runFrom s []).2) := rfl

theorem runFrom_bind (e : Edit σ α) (f : α → Edit σ β) (s : σ) (l : List Record) :
    (e >>= f).runFrom s l = match e.runFrom s l with
      | ((.ok a, s'), l') => (f a).runFrom s' l'
      | ((.error x, s'), l') => ((.error x, s'), l') := by
  have hb : (e >>= f).runFrom s l =
      ((ExceptT.bindCont f (e.runFrom s l).1.1).run (e.runFrom s l).1.2).run (e.runFrom s l).2 := rfl
  rw [hb]
  rcases e.runFrom s l with ⟨⟨_ | _, s'⟩, l'⟩ <;> rfl

@[simp] theorem runFrom_get (s : σ) (l : List Record) :
    (get : Edit σ σ).runFrom s l = ((.ok s, s), l) := rfl

@[simp] theorem runFrom_modify (f : σ → σ) (s : σ) (l : List Record) :
    (modify f : Edit σ Unit).runFrom s l = ((.ok (), f s), l) := rfl

@[simp] theorem runFrom_log (v : Level) (t : Text) (s : σ) (l : List Record) :
    (log v t : Edit σ Unit).runFrom s l = ((.ok (), s), l ++ [⟨v, t⟩]) := rfl

@[simp] theorem runFrom_ofOutcome (r : Outcome α) (s : σ) (l : List Record) :
    (ofOutcome r : Edit σ α).runFrom s l = ((r, s), l) := rfl

theorem runFrom_onPart (part : σ → τ) (put : τ → σ → σ) (e : Edit τ α) (s : σ) (l : List Record) :
    (onPart part put e).runFrom s l =
      (((e.runFrom (part s) l).1.1, put (e.runFrom (part s) l).1.2 s), (e.runFrom (part s) l).2) := rfl

theorem runFrom_tryCatch (e : Edit σ α) (f : Failure → Edit σ α) (s : σ) (l : List Record) :
    (tryCatch e f).runFrom s l = match e.runFrom s l with
      | ((.ok a, s'), l') => ((.ok a, s'), l')
      | ((.error x, s'), l') => (f x).runFrom s' l' := by
  have hb : (tryCatch e f).runFrom s l = Id.run (((ExceptT.tryCatch e f).run.run s).run l) := rfl
  rw [hb, ExceptT.tryCatch, ExceptT.run_mk]
  simp only [bind, StateT.bind, StateT.run]
  rcases h : e.runFrom s l with ⟨⟨_ | _, s'⟩, l'⟩ <;>
  · change e s l = _ at h
    rw [h]
    rfl

theorem runFrom_andThen (e : Edit σ α) (f : σ → σ) (s : σ) (l : List Record) :
    (andThen e f).runFrom s l =
      (((e.runFrom s l).1.1, f (e.runFrom s l).1.2), (e.runFrom s l).2) := rfl

theorem throw_bind (x : Failure) (f : α → Edit σ β) : (throw x >>= f : Edit σ β) = throw x := rfl

/-! ## Edits that succeed -/

/-- The edit takes the first state to the second and gives `a`. -/
def Takes (e : Edit σ α) (s : σ) (a : α) (s' : σ) : Prop :=
  ∃ l l', e.runFrom s l = ((.ok a, s'), l')

theorem perform_of_toBool {e : Edit σ Unit} {s : σ} (h : (e.perform s).2.1.toBool = true) :
    e.perform s = ((e.perform s).1, .ok (), (e.perform s).2.2) := by
  rcases hr : e.perform s with ⟨s', r, logs⟩
  rw [hr] at h
  cases r with
  | error x => cases h
  | ok u => rfl

namespace Takes

variable {e : Edit σ α} {f : α → Edit σ β} {s s' t : σ} {a : α} {b : β}

theorem of_perform {logs : List Record} (h : e.perform s = (s', .ok a, logs)) : e.Takes s a s' := by
  rw [perform_eq, Prod.mk.injEq, Prod.mk.injEq] at h
  exact ⟨[], _, Prod.ext (Prod.ext h.2.1 h.1) rfl⟩

/-- **An edit of two steps that succeeds is two steps that succeed**, one after the other. -/
theorem of_bind (h : (e >>= f).Takes s b t) : ∃ a s', e.Takes s a s' ∧ (f a).Takes s' b t := by
  obtain ⟨l, l', h⟩ := h
  rw [runFrom_bind] at h
  rcases he : e.runFrom s l with ⟨⟨x | a, s'⟩, l₁⟩
  · rw [he] at h; cases h
  · rw [he] at h
    exact ⟨a, s', ⟨l, l₁, he⟩, ⟨l₁, l', h⟩⟩

theorem of_pure (h : (pure a : Edit σ α).Takes s a t) : t = s := by
  obtain ⟨l, l', h⟩ := h; cases h; rfl

theorem eq_of_pure {a' : α} (h : (pure a : Edit σ α).Takes s a' t) : a' = a ∧ t = s := by
  obtain ⟨l, l', h⟩ := h
  cases h
  exact ⟨rfl, rfl⟩

theorem of_modify {g : σ → σ} {u : Unit} (h : (modify g : Edit σ Unit).Takes s u t) : t = g s := by
  obtain ⟨l, l', h⟩ := h; cases h; rfl

theorem of_get_bind {g : σ → Edit σ β} (h : (get >>= g : Edit σ β).Takes s b t) :
    (g s).Takes s b t := by
  obtain ⟨l, l', h⟩ := h
  exact ⟨l, l', by rw [runFrom_bind, runFrom_get] at h; exact h⟩

theorem of_modify_bind {g : σ → σ} {k : Unit → Edit σ β}
    (h : (modify g >>= k : Edit σ β).Takes s b t) : (k ()).Takes (g s) b t := by
  obtain ⟨l, l', h⟩ := h
  exact ⟨l, l', by rw [runFrom_bind, runFrom_modify] at h; exact h⟩

theorem of_log_bind {v : Level} {w : Text} {k : Unit → Edit σ β}
    (h : (log v w >>= k).Takes s b t) : (k ()).Takes s b t := by
  obtain ⟨l, l', h⟩ := h
  exact ⟨_, l', by rw [runFrom_bind, runFrom_log] at h; exact h⟩

theorem of_ofOutcome {r : Outcome α} (h : (ofOutcome r : Edit σ α).Takes s a t) :
    r = .ok a ∧ t = s := by
  obtain ⟨l, l', h⟩ := h
  rw [runFrom_ofOutcome] at h
  cases h; exact ⟨rfl, rfl⟩

theorem not_throw {x : Failure} : ¬ (throw x : Edit σ α).Takes s a t := by
  rintro ⟨l, l', h⟩; cases h

theorem of_onPart {part : σ → τ} {put : τ → σ → σ} {e : Edit τ α}
    (h : (onPart part put e).Takes s a t) : ∃ x, e.Takes (part s) a x ∧ t = put x s := by
  obtain ⟨l, l', h⟩ := h
  rw [runFrom_onPart] at h
  rcases he : e.runFrom (part s) l with ⟨⟨r, x⟩, l₁⟩
  rw [he] at h
  cases h
  exact ⟨x, ⟨l, _, he⟩, rfl⟩

theorem of_ask {g : σ → Outcome α} (h : (ask g).Takes s a t) : g s = .ok a ∧ t = s :=
  of_ofOutcome (of_get_bind h)

theorem of_ask_bind {g : σ → Outcome α} (h : (ask g >>= f).Takes s b t) :
    ∃ a, g s = .ok a ∧ (f a).Takes s b t := by
  obtain ⟨a, s', ha, hf⟩ := of_bind h
  obtain ⟨ha, rfl⟩ := of_ask ha
  exact ⟨a, ha, hf⟩

theorem of_andThen {g : σ → σ} (h : (andThen e g).Takes s a t) : ∃ s', e.Takes s a s' ∧ t = g s' := by
  obtain ⟨l, l', h⟩ := h
  rw [runFrom_andThen] at h
  rcases he : e.runFrom s l with ⟨⟨r, s'⟩, l₁⟩
  rw [he] at h
  cases h
  exact ⟨s', ⟨l, _, he⟩, rfl⟩

/-- **An edit with a way out that succeeds**: itself, or by that way from where it failed. -/
theorem of_tryCatch {k : Failure → Edit σ α} (h : (tryCatch e k).Takes s a t) :
    e.Takes s a t ∨ ∃ x l, (k x).Takes (e.runFrom s l).1.2 a t := by
  obtain ⟨l, l', h⟩ := h
  rw [runFrom_tryCatch] at h
  rcases he : e.runFrom s l with ⟨⟨x | a', s'⟩, l₁⟩
  · rw [he] at h
    exact .inr ⟨x, l, l₁, l', by rw [he]; exact h⟩
  · rw [he] at h
    exact .inl ⟨l, l', he.trans h⟩

end Takes

/-! ## Edits that fail -/

/-- The edit takes the first state to the second and fails. -/
def Fails (e : Edit σ α) (s : σ) (x : Failure) (s' : σ) : Prop :=
  ∃ l l', e.runFrom s l = ((.error x, s'), l')

namespace Fails

variable {e : Edit σ α} {f : α → Edit σ β} {s s' t : σ} {x : Failure}

theorem of_perform {logs : List Record} (h : e.perform s = (s', .error x, logs)) : e.Fails s x s' := by
  rw [perform_eq, Prod.mk.injEq, Prod.mk.injEq] at h
  exact ⟨[], _, Prod.ext (Prod.ext h.2.1 h.1) rfl⟩

/-- **An edit of two steps that fails** fails in the first one, or in the second one after the first. -/
theorem of_bind (h : (e >>= f).Fails s x t) :
    e.Fails s x t ∨ ∃ a s', e.Takes s a s' ∧ (f a).Fails s' x t := by
  obtain ⟨l, l', h⟩ := h
  rw [runFrom_bind] at h
  rcases he : e.runFrom s l with ⟨⟨y | a, s'⟩, l₁⟩
  · rw [he] at h
    cases h
    exact .inl ⟨l, _, he⟩
  · rw [he] at h
    exact .inr ⟨a, s', ⟨l, l₁, he⟩, ⟨l₁, l', h⟩⟩

theorem of_throw {y : Failure} (h : (throw y : Edit σ α).Fails s x t) : t = s := by
  obtain ⟨l, l', h⟩ := h
  cases h
  rfl

theorem not_pure {a : α} : ¬ (pure a : Edit σ α).Fails s x t := by
  rintro ⟨l, l', h⟩
  cases h

theorem not_modify {g : σ → σ} : ¬ (modify g : Edit σ Unit).Fails s x t := by
  rintro ⟨l, l', h⟩
  cases h

theorem not_log {v : Level} {w : Text} : ¬ (log v w : Edit σ Unit).Fails s x t := by
  rintro ⟨l, l', h⟩
  rw [runFrom_log] at h
  cases h

theorem of_get_bind {g : σ → Edit σ β} (h : (get >>= g : Edit σ β).Fails s x t) : (g s).Fails s x t := by
  obtain ⟨l, l', h⟩ := h
  exact ⟨l, l', by rw [runFrom_bind, runFrom_get] at h; exact h⟩

theorem of_andThen {g : σ → σ} (h : (andThen e g).Fails s x t) : ∃ s', e.Fails s x s' ∧ t = g s' := by
  obtain ⟨l, l', h⟩ := h
  rw [runFrom_andThen] at h
  rcases he : e.runFrom s l with ⟨⟨r, s'⟩, l₁⟩
  rw [he] at h
  cases h
  exact ⟨s', ⟨l, _, he⟩, rfl⟩

end Fails

/-! ## Edits that succeed whatever was logged -/

/-- The edit takes the first state to the second and gives `a`, whatever the records before it. -/
def Gives (e : Edit σ α) (s : σ) (a : α) (s' : σ) : Prop :=
  ∀ l, ∃ l', e.runFrom s l = ((.ok a, s'), l')

namespace Gives

variable {e : Edit σ α} {f : α → Edit σ β} {s s' t : σ} {a : α} {b : β}

theorem takes (h : e.Gives s a s') : e.Takes s a s' := ⟨[], h []⟩

theorem perform (h : e.Gives s a s') : ∃ logs, e.perform s = (s', .ok a, logs) := by
  obtain ⟨l, h⟩ := h []
  exact ⟨l, by rw [perform_eq, h]⟩

theorem bind (h : e.Gives s a s') (h' : (f a).Gives s' b t) : (e >>= f).Gives s b t := by
  intro l
  obtain ⟨l₁, h₁⟩ := h l
  obtain ⟨l₂, h₂⟩ := h' l₁
  exact ⟨l₂, by rw [runFrom_bind, h₁]; exact h₂⟩

theorem pure (a : α) (s : σ) : (Pure.pure a : Edit σ α).Gives s a s := fun l => ⟨l, rfl⟩

theorem modify {g : σ → σ} (h : g s = t) : (modify g : Edit σ Unit).Gives s () t :=
  fun l => ⟨l, h ▸ rfl⟩

theorem log (v : Level) (w : Text) (s : σ) : (Edit.log v w : Edit σ Unit).Gives s () s :=
  fun l => ⟨_, runFrom_log v w s l⟩

theorem get_bind {g : σ → Edit σ β} (h : (g s).Gives s b t) : (get >>= g : Edit σ β).Gives s b t :=
  fun l => by
    obtain ⟨l', h⟩ := h l
    exact ⟨l', by rw [runFrom_bind, runFrom_get]; exact h⟩

theorem ofOutcome {r : Outcome α} (h : r = .ok a) (s : σ) : (ofOutcome r : Edit σ α).Gives s a s :=
  fun l => ⟨l, by rw [h, runFrom_ofOutcome]⟩

theorem onPart {part : σ → τ} {put : τ → σ → σ} {e : Edit τ α} {x : τ} (h : e.Gives (part s) a x) :
    (onPart part put e).Gives s a (put x s) := fun l => by
  obtain ⟨l', h⟩ := h l
  exact ⟨l', by rw [runFrom_onPart, h]⟩

/-- An edit that gives a result whatever was logged has no other one. -/
theorem eq_of_takes {c : α} {s₁ : σ} (h : e.Gives s a s') (ht : e.Takes s c s₁) : c = a ∧ s₁ = s' := by
  obtain ⟨l, l', ht⟩ := ht
  obtain ⟨l₁, hl⟩ := h l
  rw [hl] at ht
  cases ht
  exact ⟨rfl, rfl⟩

end Gives

/-! ## Edits that fail whatever was logged -/

/-- The edit takes the first state to the second and fails, whatever the records before it. -/
def Refuses (e : Edit σ α) (s : σ) (x : Failure) (s' : σ) : Prop :=
  ∀ l, ∃ l', e.runFrom s l = ((.error x, s'), l')

namespace Refuses

variable {e : Edit σ α} {s s' : σ} {x : Failure}

theorem perform (h : e.Refuses s x s') : ∃ logs, e.perform s = (s', .error x, logs) := by
  obtain ⟨l, h⟩ := h []
  exact ⟨l, by rw [perform_eq, h]⟩

theorem throw (x : Failure) (s : σ) : (throw x : Edit σ α).Refuses s x s := fun l => ⟨l, rfl⟩

theorem bind (h : e.Refuses s x s') (f : α → Edit σ β) : (e >>= f).Refuses s x s' := fun l => by
  obtain ⟨l', h⟩ := h l
  exact ⟨l', by rw [runFrom_bind, h]⟩

theorem get_bind {g : σ → Edit σ β} (h : (g s).Refuses s x s') : (get >>= g : Edit σ β).Refuses s x s' := fun l => by
  obtain ⟨l', h⟩ := h l
  exact ⟨l', by rw [runFrom_bind, runFrom_get]; exact h⟩

theorem onPart {part : σ → τ} {put : τ → σ → σ} {e : Edit τ α} {t : τ} (h : e.Refuses (part s) x t) :
    (onPart part put e).Refuses s x (put t s) := fun l => by
  obtain ⟨l', h⟩ := h l
  exact ⟨l', by rw [runFrom_onPart, h]⟩

end Refuses

/-- An edit of two steps fails in the second one, after the first. -/
theorem Gives.bind_refuses {e : Edit σ α} {f : α → Edit σ β} {s s' t : σ} {a : α} {x : Failure} (h : e.Gives s a s')
    (h' : (f a).Refuses s' x t) : (e >>= f).Refuses s x t := fun l => by
  obtain ⟨l₁, h₁⟩ := h l
  obtain ⟨l₂, h₂⟩ := h' l₁
  exact ⟨l₂, by rw [runFrom_bind, h₁]; exact h₂⟩

/-! ## What an edit does to the state, also when it fails -/

/-- Whatever an edit makes of a state, the state after it is related to the one before it. -/
def MovesFrom (R : σ → σ → Prop) (e : Edit σ α) (s : σ) : Prop := ∀ l, R s (e.runFrom s l).1.2

def Moves (R : σ → σ → Prop) (e : Edit σ α) : Prop := ∀ s, e.MovesFrom R s

theorem MovesFrom.get_bind {R : σ → σ → Prop} {g : σ → Edit σ β} {s : σ} (h : (g s).MovesFrom R s) :
    (get >>= g : Edit σ β).MovesFrom R s := fun l => by
  rw [runFrom_bind]
  exact h l

theorem Takes.movesFrom {R : σ → σ → Prop} {e : Edit σ α} {s s' : σ} {a : α} (h : e.Takes s a s')
    (he : e.MovesFrom R s) : R s s' := by
  obtain ⟨l, l', h⟩ := h
  have := he l
  rwa [h] at this

theorem Takes.moves {R : σ → σ → Prop} {e : Edit σ α} {s s' : σ} {a : α} (h : e.Takes s a s')
    (he : e.Moves R) : R s s' := h.movesFrom (he s)

theorem Fails.movesFrom {R : σ → σ → Prop} {e : Edit σ α} {s s' : σ} {x : Failure} (h : e.Fails s x s')
    (he : e.MovesFrom R s) : R s s' := by
  obtain ⟨l, l', h⟩ := h
  have := he l
  rwa [h] at this

theorem Fails.moves {R : σ → σ → Prop} {e : Edit σ α} {s s' : σ} {x : Failure} (h : e.Fails s x s')
    (he : e.Moves R) : R s s' := h.movesFrom (he s)

namespace MovesFrom

variable {R : σ → σ → Prop} {e : Edit σ α} {s : σ}

/-- What an edit does is what it does when it succeeds and what it does when it fails. -/
theorem of_ends (ht : ∀ a s', e.Takes s a s' → R s s') (hf : ∀ x s', e.Fails s x s' → R s s') :
    e.MovesFrom R s := fun l => by
  rcases h : e.runFrom s l with ⟨⟨x | a, s'⟩, l'⟩
  · exact hf x s' ⟨l, l', h⟩
  · exact ht a s' ⟨l, l', h⟩

theorem bind [IsPreorder σ R] {f : α → Edit σ β} (he : e.MovesFrom R s)
    (hf : ∀ a s', e.Takes s a s' → (f a).MovesFrom R s') : (e >>= f).MovesFrom R s := fun l => by
  have h := he l
  rw [runFrom_bind]
  rcases hr : e.runFrom s l with ⟨⟨x | a, s'⟩, l'⟩
  · rwa [hr] at h
  · rw [hr] at h
    exact trans_of R h (hf a s' ⟨l, l', hr⟩ l')

theorem tryCatch [IsPreorder σ R] {k : Failure → Edit σ α} (he : e.MovesFrom R s)
    (hk : ∀ x s', e.Fails s x s' → (k x).MovesFrom R s') : (tryCatch e k).MovesFrom R s := fun l => by
  have h := he l
  rw [runFrom_tryCatch]
  rcases hr : e.runFrom s l with ⟨⟨x | a, s'⟩, l'⟩
  · rw [hr] at h
    exact trans_of R h (hk x s' ⟨l, l', hr⟩ l')
  · rwa [hr] at h

theorem mapM [IsPreorder σ R] {γ : Type} {g : γ → Edit σ β} {xs : List γ}
    (hg : ∀ x ∈ xs, ∀ s', R s s' → (g x).MovesFrom R s') : (xs.mapM g).MovesFrom R s := by
  induction xs generalizing s with
  | nil =>
    rw [List.mapM_nil]
    exact fun l => refl_of R s
  | cons x xs ih =>
    rw [List.mapM_cons]
    refine (hg x List.mem_cons_self s (refl_of R s)).bind fun y s₁ hy => ?_
    have hs₁ := hy.movesFrom (hg x List.mem_cons_self s (refl_of R s))
    refine (ih fun z hz s₂ hs₂ => ?_).bind fun ys s₂ _ l => refl_of R s₂
    exact hg z (List.mem_cons_of_mem _ hz) s₂ (trans_of R hs₁ hs₂)

end MovesFrom

namespace Moves

variable {R : σ → σ → Prop} [IsPreorder σ R] {e : Edit σ α} {f : α → Edit σ β} {s s' : σ} {a : α}

theorem of_same (h : ∀ s l, (e.runFrom s l).1.2 = s) : e.Moves R := fun s l => by
  rw [h s l]
  exact refl_of R s

theorem bind (he : e.Moves R) (hf : ∀ a, (f a).Moves R) : (e >>= f).Moves R := fun s l => by
  have h := he s l
  rw [runFrom_bind]
  rcases hr : e.runFrom s l with ⟨⟨x | a, s'⟩, l'⟩
  · rwa [hr] at h
  · rw [hr] at h
    exact trans_of R h (hf a s' l')

theorem tryCatch {k : Failure → Edit σ α} (he : e.Moves R) (hk : ∀ x, (k x).Moves R) :
    (tryCatch e k).Moves R := fun s l => by
  have h := he s l
  rw [runFrom_tryCatch]
  rcases hr : e.runFrom s l with ⟨⟨x | a, s'⟩, l'⟩
  · rw [hr] at h
    exact trans_of R h (hk x s' l')
  · rwa [hr] at h

theorem pure (a : α) : (Pure.pure a : Edit σ α).Moves R := of_same fun _ _ => rfl

theorem throw (x : Failure) : (throw x : Edit σ α).Moves R := of_same fun _ _ => rfl

theorem get : (get : Edit σ σ).Moves R := of_same fun _ _ => rfl

theorem log (v : Level) (t : Text) : (log v t : Edit σ Unit).Moves R := of_same fun _ _ => rfl

theorem ofOutcome (r : Outcome α) : (ofOutcome r : Edit σ α).Moves R := of_same fun _ _ => rfl

theorem ask (g : σ → Outcome α) : (ask g).Moves R := get.bind fun _ => ofOutcome _

theorem forM {γ : Type} {g : γ → Edit σ PUnit} (hg : ∀ x, (g x).Moves R) :
    ∀ xs : List γ, (xs.forM g).Moves R
  | [] => pure _
  | x :: xs => (hg x).bind fun _ => forM hg xs

theorem from_bind (he : e.Moves Eq) (hf : ∀ a, (f a).MovesFrom R s) : (e >>= f).MovesFrom R s :=
  fun l => by
    have h := he s l
    rw [runFrom_bind]
    rcases hr : e.runFrom s l with ⟨⟨x | a, s'⟩, l'⟩ <;> rw [hr] at h
    · subst h
      exact refl_of R s
    · subst h
      exact hf a l'

theorem mapM {γ : Type} {g : γ → Edit σ β} (hg : ∀ x, (g x).Moves R) :
    ∀ xs : List γ, (xs.mapM g).Moves R
  | [] => by rw [List.mapM_nil]; exact pure _
  | x :: xs => by
    rw [List.mapM_cons]
    exact (hg x).bind fun _ => (mapM hg xs).bind fun _ => pure _

theorem ofLogged (r : List Record × Outcome α) : (ofLogged r : Edit σ α).Moves R :=
  (forM (fun _ => log _ _) _).bind fun _ => ofOutcome _

end Moves

theorem Fails.of_same_bind {α : Type} {e : Edit σ α} {f : α → Edit σ β} {s t : σ} {x : Failure} (he : e.Moves Eq)
    (h : (e >>= f).Fails s x t) : t = s ∨ ∃ a, e.Takes s a s ∧ (f a).Fails s x t := by
  obtain h | ⟨a, s', ha, h⟩ := of_bind h
  · exact .inl (h.moves he).symm
  · obtain rfl := ha.moves he
    exact .inr ⟨a, ha, h⟩

namespace Takes

variable {s t : σ}

theorem of_ofLogged {r : List Record × Outcome α} {a : α} (h : (ofLogged r : Edit σ α).Takes s a t) :
    r.2 = .ok a ∧ t = s := by
  obtain ⟨u, s', hl, h⟩ := of_bind h
  obtain rfl := hl.moves (R := Eq) (Moves.forM (fun _ => Moves.log _ _) _)
  exact of_ofOutcome h

theorem of_same_bind {α : Type} {e : Edit σ α} {f : α → Edit σ β} {b : β} (he : e.Moves Eq)
    (h : (e >>= f).Takes s b t) : ∃ a, e.Takes s a s ∧ (f a).Takes s b t := by
  obtain ⟨a, s', ha, hf⟩ := of_bind h
  obtain rfl := ha.moves he
  exact ⟨a, ha, hf⟩

/-- An edit for every item of a list, none of which changes the state. -/
theorem of_mapM {γ : Type} {g : γ → Edit σ β} (hg : ∀ x, (g x).Moves Eq) :
    ∀ {xs : List γ} {ys : List β} {s t : σ}, (xs.mapM g).Takes s ys t →
      t = s ∧ List.Forall₂ (fun x y => (g x).Takes s y s) xs ys
  | [], ys, _, _, h => by
    rw [List.mapM_nil] at h
    have hys : ys = [] := by obtain ⟨l, l', h⟩ := h; cases h; rfl
    subst hys
    exact ⟨of_pure h, .nil⟩
  | x :: xs, ys, _, _, h => by
    rw [List.mapM_cons] at h
    obtain ⟨y, s₁, hy, hrest⟩ := of_bind h
    obtain rfl := hy.moves (hg x)
    obtain ⟨zs, s₂, hzs, l, l', hend⟩ := of_bind hrest
    obtain ⟨rfl, hall⟩ := of_mapM hg hzs
    cases hend
    exact ⟨rfl, .cons hy hall⟩

end Takes

end Edit
end ApiRoutes
