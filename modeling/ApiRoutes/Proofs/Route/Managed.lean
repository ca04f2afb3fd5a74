import ApiRoutes.Proofs.Route.Parameters
import ApiRoutes.Route.Handler
/-!
# The managed statements of a route function

The kinds of statements that a merge looks after (`Managed`), how it changes one of them
(`Managed.Revises`), and which ones it makes (`Managed.New`).  A merge is a sequence of steps
(`Managed.Steps`), each of which revises the first statement of a kind or, where there is none, puts
a new one somewhere; what a merge keeps is read off from that.
-/
namespace ApiRoutes.Route

open Script

/-- What is looked after among the statements of a route function. -/
inductive Managed where
  /-- The declaration of the parameters of all methods. -/
  | collection
  /-- The function of a name. -/
  | handler (name : Option Text)
  /-- The assignment that documents a method. -/
  | documentation (verb : Text)
  /-- The statement that returns the handlers. -/
  | returns
  deriving DecidableEq

/-! ## Single statements -/

/-- The statement that documents a method with a value. -/
def documenting (verb : Text) (value : Node) : Node :=
  (Node.statement (.ofShape (.assignment ((Node.identifier verb).member documentationMember) value)))
    |>.withComments (Node.lineComments ("Documentation for method " ++ verb))

/-- The same in the place of another statement, under which it keeps the blank line. -/
def documentingFor (verb : Text) (value old : Node) : Node :=
  (documenting verb value).withLayout
    { (documenting verb value).layout with blankBefore := old.layout.blankBefore }

/-- A new statement that returns handlers. -/
def returning (verbs : List Text) : Node :=
  (Node.ofShape (.returns (some (offered verbs)))).withComments
    (Node.lineComments "Export supported endpoint HTTP methods")

namespace Managed

/-- How it is found. -/
def query : Managed → Query
  | .collection => .variables (some collectionVariable)
  | .handler name => .function name
  | .documentation verb => .documentation (some verb)
  | .returns => .returns

/-- Is the node one of the kind? -/
def finds (m : Managed) (n : Node) : Bool := m.query.finds n

/-- What a node is to a merge. -/
def of? (n : Node) : Option Managed :=
  match n.shape with
  | .function f => some (.handler f.name)
  | .variables .. => if declares n then some .collection else none
  | .expression ⟨_, .assignment ⟨_, .member ⟨_, .identifier object⟩ member _⟩ _⟩ =>
    if member = documentationMember then some (.documentation object) else none
  | .returns _ => some .returns
  | _ => none

/-- The node `b` is what a merge can make of the first `a` of a kind: another initializer for the
variable, other parameters for the handler, another documentation in the old place, other handlers to
return. -/
def Revises : Managed → Node → Node → Prop
  | .collection, a, b => ∃ c, b = changeVariable (initialised c) a
  | .handler _, a, b => ∃ f c, a.shape = .function f ∧
      b = a.withShape (.function { f with body := declare c f.body })
  | .documentation verb, a, b => ∃ value, b = documentingFor verb value a
  | .returns, a, b => ∃ verbs, b = a.withShape (.returns (some (offered verbs)))

/-- The node is one that a merge makes where there is none of the kind. -/
def New : Managed → Node → Prop
  | .collection, n => ∃ c, n = .const collectionVariable c
  | .handler name, n => ∃ verb path, name = some verb ∧ n = newHandler verb path
  | .documentation verb, n => ∃ value, n = documenting verb value
  | .returns, n => ∃ verbs, n = returning verbs

/-- **A node is of one kind at most.** -/
theorem finds_iff {m : Managed} {n : Node} : m.finds n = true ↔ of? n = some m := by
  obtain ⟨l, s⟩ := n
  cases s with
  | function f => cases m <;> simp [finds, query, Query.finds, of?, Node.shape]
  | «variables» kind ds =>
    cases m <;> simp [finds, query, Query.finds, of?, Node.shape, declares]
  | returns e => cases m <;> simp [finds, query, Query.finds, of?, Node.shape]
  | expression e =>
    obtain ⟨l₁, s₁⟩ := e
    cases s₁ with
    | assignment target value =>
      obtain ⟨l₂, s₂⟩ := target
      cases s₂ with
      | member object name computed =>
        obtain ⟨l₃, s₃⟩ := object
        cases s₃ <;> cases m <;> simp [finds, query, Query.finds, of?, Node.shape]
      | _ => cases m <;> simp [finds, query, Query.finds, of?, Node.shape]
    | _ => cases m <;> simp [finds, query, Query.finds, of?, Node.shape]
  | _ => cases m <;> simp [finds, query, Query.finds, of?, Node.shape]

theorem finds_eq (m : Managed) (n : Node) : m.finds n = (of? n == some m) := by
  rw [Bool.eq_iff_iff, finds_iff, beq_iff_eq]

theorem finds_inj {m m' : Managed} {n : Node} (h : m.finds n = true) (h' : m'.finds n = true) :
    m = m' := by
  rw [finds_iff] at h h'
  rw [h, Option.some.injEq] at h'
  exact h'

theorem finds_of_of?_eq {a b : Node} (h : of? b = of? a) (m : Managed) :
    m.finds b = m.finds a := by rw [finds_eq, finds_eq, h]

theorem Revises.of?_eq {m : Managed} {a b : Node} (ha : m.finds a = true) (h : m.Revises a b) :
    of? b = of? a := by
  cases m with
  | collection =>
    obtain ⟨c, rfl⟩ := h
    rw [finds_iff.1 ha, ← finds_iff]
    exact (declares_changeVariable (f := initialised c) (fun _ => rfl) a).trans ha
  | handler name =>
    obtain ⟨f, c, hf, rfl⟩ := h
    obtain ⟨l, s⟩ := a
    cases hf
    rfl
  | documentation verb =>
    obtain ⟨value, rfl⟩ := h
    rw [finds_iff.1 ha]
    rfl
  | returns =>
    obtain ⟨verbs, rfl⟩ := h
    rw [finds_iff.1 ha]
    obtain ⟨l, s⟩ := a
    rfl

theorem Revises.trans {m : Managed} {a b c : Node} (h : m.Revises a b) (h' : m.Revises b c) :
    m.Revises a c := by
  cases m with
  | collection =>
    obtain ⟨x, rfl⟩ := h
    obtain ⟨y, rfl⟩ := h'
    exact ⟨y, changeVariable_changeVariable (f := initialised y) (g := initialised x) (fun _ => rfl) a⟩
  | handler name =>
    obtain ⟨f, x, hf, rfl⟩ := h
    obtain ⟨g, y, hg, rfl⟩ := h'
    obtain ⟨l, s⟩ := a
    cases hf
    cases hg
    exact ⟨f, y, rfl, by rw [declare_declare]; rfl⟩
  | documentation verb =>
    obtain ⟨x, rfl⟩ := h
    obtain ⟨y, rfl⟩ := h'
    exact ⟨y, rfl⟩
  | returns =>
    obtain ⟨vs, rfl⟩ := h
    obtain ⟨ws, rfl⟩ := h'
    exact ⟨ws, by obtain ⟨l, s⟩ := a; rfl⟩

theorem New.finds {m : Managed} {n : Node} (h : m.New n) : m.finds n = true := by
  rw [finds_iff]
  cases m with
  | collection => obtain ⟨c, rfl⟩ := h; rfl
  | handler name => obtain ⟨verb, path, rfl, rfl⟩ := h; rfl
  | documentation verb => obtain ⟨value, rfl⟩ := h; rfl
  | returns => obtain ⟨verbs, rfl⟩ := h; rfl

end Managed

end ApiRoutes.Route
