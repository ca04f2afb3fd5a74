import Mathlib.Data.List.Forall2
import ApiRoutes.Script.Printer
/-!
# Trees that print alike

Trees with the same text: entries of literals whose values have the same texts (`EntryAlike`,
`ElementAlike`), and statements that stand among others in the same way and have the same text there
(`Alike`).
-/
namespace ApiRoutes.Script

/-! ## Literals -/

/-- Entries of an object inside a level: the same, or properties whose values have the same texts.  The value of
a shorthand property is not written. -/
inductive EntryAlike (level : Nat) : Node → Node → Prop where
  | refl (n : Node) : EntryAlike level n n
  | shorthand {l : Layout} {key : Text} (v w : Node) :
      EntryAlike level (.mk l (.property key v true)) (.mk l (.property key w true))
  | value {l : Layout} {key : Text} {v w : Node} {shorthand : Bool}
      (here : expressionText level v = expressionText level w)
      (inside : expressionText (level + 1) v = expressionText (level + 1) w) :
      EntryAlike level (.mk l (.property key v shorthand)) (.mk l (.property key w shorthand))

/-- Elements of an array inside a level: the same, or objects whose entries are alike. -/
inductive ElementAlike (level : Nat) : Node → Node → Prop where
  | refl (n : Node) : ElementAlike level n n
  | entries {l : Layout} {ps qs : List Node} {inline : Bool}
      (here : List.Forall₂ (EntryAlike level) ps qs)
      (inside : List.Forall₂ (EntryAlike (level + 1)) ps qs) :
      ElementAlike level (.mk l (.object ps inline)) (.mk l (.object qs inline))

variable {level : Nat}

theorem EntryAlike.needsOwnLine_eq {a b : Node} (h : EntryAlike level a b) :
    needsOwnLine a = needsOwnLine b := by
  cases h <;> rfl

theorem ElementAlike.needsOwnLine_eq {a b : Node} (h : ElementAlike level a b) :
    needsOwnLine a = needsOwnLine b := by
  cases h <;> rfl

theorem any_needsOwnLine {R : Node → Node → Prop} (hR : ∀ {a b}, R a b → needsOwnLine a = needsOwnLine b)
    {as bs : List Node} (h : List.Forall₂ R as bs) : as.any needsOwnLine = bs.any needsOwnLine := by
  induction h with
  | nil => rfl
  | cons hab _ ih => rw [List.any_cons, List.any_cons, hR hab, ih]

theorem isEmpty_eq {R : Node → Node → Prop} {as bs : List Node} (h : List.Forall₂ R as bs) :
    as.isEmpty = bs.isEmpty := by
  cases h <;> rfl

theorem entryTexts_congr {ps qs : List Node} (h : List.Forall₂ (EntryAlike level) ps qs) :
    entryTexts level ps = entryTexts level qs := by
  induction h with
  | nil => rfl
  | @cons a _ _ _ hab _ ih =>
    cases hab with
    | refl =>
      obtain ⟨l, s⟩ := a
      cases s with
      | property key value shorthand => cases shorthand <;> simp only [entryTexts, ih]
      | _ => simp only [entryTexts, ih]
    | shorthand => simp only [entryTexts, ih]
    | @value l key v w shorthand here _ => cases shorthand <;> simp only [entryTexts, ih, here]

theorem entryBlocks_congr {ps qs : List Node} (h : List.Forall₂ (EntryAlike level) ps qs) :
    entryBlocks level ps = entryBlocks level qs := by
  induction h with
  | nil => rfl
  | @cons a _ _ _ hab _ ih =>
    cases hab with
    | refl =>
      obtain ⟨l, s⟩ := a
      cases s with
      | property key value shorthand => cases shorthand <;> simp only [entryBlocks, ih]
      | _ => simp only [entryBlocks, ih]
    | shorthand => simp only [entryBlocks, ih]; rfl
    | @value l key v w shorthand _ inside =>
      cases shorthand <;> simp only [entryBlocks, ih, inside] <;> rfl

/-- **An object with entries that are alike** has the same text. -/
theorem objectText_congr {l : Layout} {ps qs : List Node} (inline : Bool)
    (h : List.Forall₂ (EntryAlike level) ps qs) :
    expressionText level (.mk l (.object ps inline)) = expressionText level (.mk l (.object qs inline)) := by
  simp only [expressionText, isEmpty_eq h, any_needsOwnLine EntryAlike.needsOwnLine_eq h,
    entryTexts_congr h, entryBlocks_congr h]

theorem expressionTexts_congr {as bs : List Node} (h : List.Forall₂ (ElementAlike level) as bs) :
    expressionTexts level as = expressionTexts level bs := by
  induction h with
  | nil => rfl
  | cons hab _ ih =>
    cases hab with
    | refl => simp only [expressionTexts, ih]
    | entries here _ => simp only [expressionTexts, ih, objectText_congr _ here]

theorem elementBlocks_congr {as bs : List Node} (h : List.Forall₂ (ElementAlike level) as bs) :
    elementBlocks level as = elementBlocks level bs := by
  induction h with
  | nil => rfl
  | @cons a _ _ _ hab _ ih =>
    cases hab with
    | refl =>
      obtain ⟨l, s⟩ := a
      cases s <;> simp only [elementBlocks, ih]
    | entries _ inside => simp only [elementBlocks, ih, objectText_congr _ inside]; rfl

/-- **An array with elements that are alike** has the same text. -/
theorem arrayText_congr {l : Layout} {as bs : List Node} (inline : Bool)
    (h : List.Forall₂ (ElementAlike level) as bs) :
    expressionText level (.mk l (.array as inline)) = expressionText level (.mk l (.array bs inline)) := by
  simp only [expressionText, isEmpty_eq h, any_needsOwnLine ElementAlike.needsOwnLine_eq h,
    expressionTexts_congr h, elementBlocks_congr h]

/-! ## Statements -/

/-- The kinds of statements that blank lines between them go by. -/
inductive GapKind where
  | imports
  | returns
  | functionLike
  | other
  deriving DecidableEq

/-- The kind of a shape. -/
def Shape.gapKind : Shape → GapKind
  | .imports .. => .imports
  | .returns _ => .returns
  | .function _ | .exportDefault _ => .functionLike
  | _ => .other

/-- Does a blank line stand between statements of these kinds, the second in this layout? -/
def gapBetween (previous : GapKind) (layout : Layout) (kind : GapKind) : Bool :=
  match layout.blankBefore with
  | some b => b
  | none =>
    match previous, kind with
    | .imports, .imports => false
    | .imports, _ => true
    | _, .returns => true
    | p, k => !layout.comments.isEmpty || p == .functionLike || k == .functionLike

theorem blankBetween_eq (a b : Node) :
    blankBetween a b = gapBetween a.shape.gapKind b.layout b.shape.gapKind := by
  obtain ⟨l, s⟩ := a
  obtain ⟨⟨comments, trailing, blankBefore⟩, s'⟩ := b
  cases blankBefore with
  | some b => rfl
  | none => cases s <;> cases s' <;> rfl

theorem statementText_layout (l l' : Layout) (s : Shape) :
    statementText level (.mk l s) = statementText level (.mk l' s) := by
  cases s with
  | returns e => cases e <;> simp only [statementText]
  | _ => simp only [statementText]

/-- Statements at a level that stand among others in the same way and have the same text. -/
structure Alike (level : Nat) (a b : Node) : Prop where
  layout : a.layout = b.layout
  kind : a.shape.gapKind = b.shape.gapKind
  text : statementText level a = statementText level b

namespace Alike

theorem refl (n : Node) : Alike level n n := ⟨rfl, rfl, rfl⟩

theorem trans {a b c : Node} (h : Alike level a b) (h' : Alike level b c) : Alike level a c :=
  ⟨h.layout.trans h'.layout, h.kind.trans h'.kind, h.text.trans h'.text⟩

theorem forall₂_trans : ∀ {as bs cs : List Node}, List.Forall₂ (Alike level) as bs →
    List.Forall₂ (Alike level) bs cs → List.Forall₂ (Alike level) as cs
  | _, _, _, .nil, .nil => .nil
  | _, _, _, .cons h hs, .cons h' hs' => .cons (h.trans h') (forall₂_trans hs hs')

end Alike

theorem blockLines_congr {as bs : List Node} (h : List.Forall₂ (Alike level) as bs) :
    ∀ {p q : Option Node}, p.map (·.shape.gapKind) = q.map (·.shape.gapKind) →
      blockLines level p as = blockLines level q bs := by
  induction h with
  | nil => exact fun _ => rfl
  | @cons a b as bs hab _ ih =>
    intro p q hpq
    have hrest : blockLines level (some a) as = blockLines level (some b) bs :=
      ih (congrArg some hab.kind)
    have hgap : p.any (blankBetween · a) = q.any (blankBetween · b) := by
      cases p with
      | none =>
        cases q with
        | none => rfl
        | some q => cases hpq
      | some p =>
        cases q with
        | none => cases hpq
        | some q =>
          rw [Option.map_some, Option.map_some, Option.some.injEq] at hpq
          simp only [Option.any_some, blankBetween_eq, hpq, hab.layout, hab.kind]
    simp only [blockLines, hab.text, hab.layout, hgap, hrest]

/-- **A function with statements that are alike** has the same text. -/
theorem functionText_congr {f : Function} {body : List Node}
    (h : List.Forall₂ (Alike (level + 1)) f.body body) :
    functionText level f = functionText level { f with body } := by
  obtain ⟨name, params, body', isAsync⟩ := f
  simp only [functionText, isEmpty_eq h, blockLines_congr h (p := none) (q := none) rfl]

end ApiRoutes.Script
