import ApiRoutes.Failure
import ApiRoutes.Log
/-!
# Edits

An edit changes a state step by step and says what it does.  Where a step fails, the changes before
it stay, and so do the records.
-/
namespace ApiRoutes

/-- Changes a `σ`, gives an `α` or fails, and logs. -/
abbrev Edit (σ α : Type) := ExceptT Failure (StateT σ (StateM (List Record))) α

namespace Edit

variable {σ τ α : Type}

/-- What an edit makes of a state: the state after it, the result, the records. -/
def perform (e : Edit σ α) (s : σ) : σ × Outcome α × List Record :=
  let ((result, s), logs) := (ExceptT.run e).run s |>.run []
  (s, result, logs)

/-- Logs a record. -/
def log (level : Level) (text : Text) : Edit σ Unit :=
  ExceptT.lift (StateT.lift (modify (· ++ [⟨level, text⟩])))

/-- Fails, or gives a result without a change. -/
def ofOutcome (r : Outcome α) : Edit σ α := ExceptT.mk (pure r)

/-- Logs what a computation logged, and has its result. -/
def ofLogged (r : List Record × Outcome α) : Edit σ α := do
  r.1.forM fun record => log record.level record.text
  ofOutcome r.2

/-- What a computation on the state gives. -/
def ask (f : σ → Outcome α) : Edit σ α := do ofOutcome (f (← get))

/-- Performs an edit on a part of the state; the part is put back also when the edit fails. -/
def onPart (part : σ → τ) (put : τ → σ → σ) (e : Edit τ α) : Edit σ α :=
  ExceptT.mk fun s logs =>
    let ((result, t), logs) := (ExceptT.run e).run (part s) |>.run logs
    ((result, put t s), logs)

/-- Changes the state once an edit is over, also when it fails. -/
def andThen (e : Edit σ α) (f : σ → σ) : Edit σ α :=
  ExceptT.mk do
    let result ← ExceptT.run e
    modify f
    return result

end Edit

end ApiRoutes
