import ApiRoutes.Proofs.Route.Rendering
import ApiRoutes.Proofs.Route.Uniqueness
import ApiRoutes.Proofs.Route.Preservation
import ApiRoutes.Proofs.Script.Hiding
/-!
# Managed declarations that hide

A merge finds what the reading of a module has made nodes of.  A managed declaration that is kept as
text is not found, and the merge adds another one: the rendered module has one default export, and
the exported function one function for a method and one return, exactly when those that were there
before are open (`renderEndpoint_declares_once`).
-/
namespace ApiRoutes.Route

open Script
open Script.Concrete (items isKept keptItems opensFunction isOpen)

variable {ts : List Concrete} {body : List Node}

/-- How often something is declared: by what is found, and by what is kept. -/
def declaredTimes (q : Query) (ns : List Node) (kept : List Concrete) : Nat :=
  ns.countP q.finds + kept.countP q.findsTree

/-- The statements of a function. -/
def functionStatements (t : Concrete) : List Concrete := ((childIn? .body t.children).map Concrete.children).getD []

/-- The statements of the function that a default export exports. -/
def exportStatements (t : Concrete) : List Concrete :=
  match childIn? .declaration t.children with
  | some d => functionStatements d
  | none =>
    match (childIn? .value t.children).filter (·.kind == .functionExpression) with
    | some d => functionStatements d
    | none => []

/-- The statements of the function that a source exports by default, if it can be read. -/
def exportedBody (ts : List Concrete) : List Concrete :=
  (((items ts).find? fun t => Query.defaultExport.findsTree t && t.isOpen).map exportStatements).getD []

theorem readExpression_not_function {t : Concrete} {n : Node} {f : Function} (h : readExpression t = .ok n) :
    n.shape ≠ .function f := by
  obtain ⟨kind, role, span, children⟩ := t
  unfold readExpression at h
  obtain rfl | ⟨s, hs, rfl⟩ := orKeep_ok h
  · exact fun hf => by cases hf
  change s ≠ .function f
  rintro rfl
  cases kind with
  | identifier => cases hs
  | string =>
    obtain ⟨v, raw, hs⟩ := stringLiteral_ok hs
    cases hs
  | number =>
    dsimp only at hs
    split at hs <;> cases hs
  | truth b => cases hs
  | null => cases hs
  | member =>
    obtain ⟨-, -, hs⟩ := bind_eq_ok.1 hs
    obtain ⟨p, -, hs⟩ := bind_eq_ok.1 hs
    split at hs
    · cases hs
    · obtain ⟨o, -, hs⟩ := bind_eq_ok.1 hs
      cases hs
  | subscript =>
    obtain ⟨-, -, hs⟩ := bind_eq_ok.1 hs
    obtain ⟨p, -, hs⟩ := bind_eq_ok.1 hs
    split at hs
    · cases hs
    · obtain ⟨o, -, hs⟩ := bind_eq_ok.1 hs
      obtain ⟨x, -, hs⟩ := bind_eq_ok.1 hs
      cases hs
  | call =>
    obtain ⟨-, -, hs⟩ := bind_eq_ok.1 hs
    obtain ⟨p, -, hs⟩ := bind_eq_ok.1 hs
    split at hs
    · cases hs
    · obtain ⟨c, -, hs⟩ := bind_eq_ok.1 hs
      obtain ⟨-, -, hs⟩ := bind_eq_ok.1 hs
      obtain ⟨as, -, hs⟩ := bind_eq_ok.1 hs
      cases hs
  | assignment =>
    obtain ⟨a, -, hs⟩ := bind_eq_ok.1 hs
    obtain ⟨v, -, hs⟩ := bind_eq_ok.1 hs
    cases hs
  | object =>
    obtain ⟨ps, -, hs⟩ := bind_eq_ok.1 hs
    cases hs
  | array =>
    dsimp only at hs
    split at hs
    · cases hs
    · obtain ⟨es, -, hs⟩ := bind_eq_ok.1 hs
      cases hs
  | _ => cases hs

theorem readFunction_body {t : Concrete} {f : Function} (h : readFunction t = .ok f) :
    sequence (readStatements (functionStatements t)) = .ok f.body := by
  rw [readFunction_eq] at h
  unfold functionOf at h
  obtain ⟨params, -, h⟩ := bind_eq_ok.1 h
  obtain ⟨body, hbody, h⟩ := bind_eq_ok.1 h
  cases h
  rw [readBodyIn_eq] at hbody
  unfold functionStatements
  cases hb : childIn? .body t.children with
  | none =>
    rw [hb] at hbody
    cases hbody
  | some b =>
    rw [hb] at hbody
    exact hbody

/-- The statements of the function that a node exports by default. -/
def bodyOf (s : Option Shape) : List Node :=
  match s with
  | some (.exportDefault ⟨_, .function f⟩) => f.body
  | _ => []

theorem routeBody_eq_bodyOf (p : Program) : routeBody p = bodyOf ((p.body.find? Query.defaultExport.finds).map Node.shape) := by
  unfold routeBody exported?
  generalize (p.body.find? Query.defaultExport.finds).map Node.shape = s
  cases s with
  | none => rfl
  | some s =>
    cases s with
    | exportDefault d =>
      obtain ⟨l, s⟩ := d
      cases s <;> rfl
    | _ => rfl

theorem readExport_body {t : Concrete} {s : Shape} (h : readExport t.children = .ok s) :
    sequence (readStatements (exportStatements t)) = .ok (bodyOf (some s)) := by
  rw [readExport_eq] at h
  unfold exportStatements
  cases hd : childIn? .declaration t.children with
  | some d =>
    rw [hd] at h
    dsimp only at h
    unfold readDeclared at h
    split at h
    · obtain ⟨f, hf, h⟩ := bind_eq_ok.1 h
      cases h
      exact readFunction_body hf
    · cases h
  | none =>
    rw [hd] at h
    dsimp only at h
    cases hv : childIn? .value t.children with
    | none =>
      rw [hv] at h
      cases h
    | some v =>
      rw [hv] at h
      replace h : readValue v = .ok s := h
      unfold readValue at h
      by_cases hkind : v.kind = .functionExpression
      · rw [if_pos hkind] at h
        obtain ⟨f, hf, h⟩ := bind_eq_ok.1 h
        cases h
        have hfilter : (some v).filter (·.kind == .functionExpression) = some v := by simp [Option.filter, hkind]
        rw [hfilter]
        exact readFunction_body hf
      · rw [if_neg hkind] at h
        obtain ⟨⟨l, s⟩, he, h⟩ := bind_eq_ok.1 h
        cases h
        have hfunction : ∀ f, s ≠ .function f := fun f => readExpression_not_function he
        have hbody : bodyOf (some (.exportDefault ⟨l, s⟩)) = [] := by
          cases s with
          | function f => exact absurd rfl (hfunction f)
          | _ => rfl
        have hfilter : (some v).filter (·.kind == .functionExpression) = none := by simp [Option.filter, hkind]
        rw [hbody, hfilter]
        rfl

/-- **The exported function has the statements of its source.** -/
theorem routeBody_statements (h : sequence (readStatements ts) = .ok body) :
    sequence (readStatements (exportedBody ts)) = .ok (routeBody { body }) := by
  rw [routeBody_eq_bodyOf, find?_statements h rfl]
  have hread := items_read h
  unfold exportedBody
  cases ht : (items ts).find? fun t => Query.defaultExport.findsTree t && t.isOpen with
  | none => rfl
  | some t =>
    have hopen := List.find?_some ht
    obtain ⟨hfinds, hopen⟩ := Bool.and_eq_true_iff.1 hopen
    have hkind : t.kind = .exportStatement := eq_of_beq (Bool.and_eq_true_iff.1 hfinds).1
    obtain ⟨n, hn, hr⟩ := hread t (List.mem_of_find?_eq_some ht)
    have hshape : readShape? t = some n.shape := by
      rw [readShape?, hr]
      exact hn.content?
    rw [Option.bind_some, hshape]
    cases hn with
    | exported _ _ _ hd => exact readExport_body hd
    | kept ho =>
      rw [ho] at hopen
      cases hopen
    | function hk | returned hk | declaration hk | expression hk | imports hk =>
      rw [hk] at hkind
      cases hkind

/-! ## Merging -/

theorem keptTexts_of_map_eq {a b : List Node} (h : b.map (fun n => n.shape.kept?) = a.map fun n => n.shape.kept?) :
    keptTexts b = keptTexts a := by
  have hmap : ∀ ns : List Node, keptTexts ns = (ns.map fun n => n.shape.kept?).filterMap id := fun ns => by
    rw [List.filterMap_map]
    rfl
  rw [hmap, hmap, h]

namespace Managed

theorem New.kept? {m : Managed} {n : Node} (h : m.New n) : n.shape.kept? = none := by
  cases m with
  | collection => obtain ⟨c, rfl⟩ := h; rfl
  | handler name => obtain ⟨verb, path, rfl, rfl⟩ := h; rfl
  | documentation verb => obtain ⟨value, rfl⟩ := h; rfl
  | returns => obtain ⟨verbs, rfl⟩ := h; rfl

theorem kept?_of_of? {n : Node} {m : Managed} (h : of? n = some m) : n.shape.kept? = none := by
  obtain ⟨l, s⟩ := n
  cases s <;> first | rfl | cases h

/-- **A step leaves alone what is kept as text.** -/
theorem Step.keptTexts {m : Managed} {a b : List Node} (h : Step m a b) : keptTexts b = keptTexts a := by
  cases h with
  | revise hg _ =>
    refine keptTexts_of_map_eq (map_alterFirst (fun n hn => ?_) a)
    have hof := finds_iff.1 hn
    rw [kept?_of_of? hof, kept?_of_of? (((hg n hn).of?_eq hn).trans hof)]
  | insert hn _ _ =>
    unfold Script.keptTexts
    rw [List.filterMap_append, List.filterMap_append, List.filterMap_cons, hn.kept?]

theorem Steps.keptTexts {ms : List Managed} {a b : List Node} (h : Steps ms a b) : keptTexts b = keptTexts a := by
  induction h with
  | nil => rfl
  | cons hs _ ih => rw [ih, hs.keptTexts]

end Managed

theorem keptTexts_withRouteBody (body : List Node) (p : Program) : keptTexts (withRouteBody body p).body = keptTexts p.body := by
  have hexporting : keptTexts (alterFirst Query.defaultExport.finds (exporting body) (withExport p.body)) =
      keptTexts (withExport p.body) := by
    refine keptTexts_of_map_eq (map_alterFirst (fun n hn => ?_) _)
    obtain ⟨l, s⟩ := n
    cases s with
    | exportDefault d =>
      obtain ⟨ld, sd⟩ := d
      cases sd <;> rfl
    | _ => cases hn
  rw [withRouteBody, hexporting, withExport]
  split
  · rfl
  · unfold keptTexts
    rw [List.filterMap_append]
    exact List.append_nil _

/-! ## Rendering -/

theorem mergedModule_source {existing : Text} {e : Spec.Endpoint} {path : Option Text} {p' : Program}
    (h : mergedModule (some existing) e path = .ok p') :
    ∃ p logs, Program.parse existing path = .ok p ∧ (mergeEndpoint e path).perform p = (p', .ok (), logs) := by
  unfold mergedModule at h
  cases hp : Program.parse existing path with
  | error f =>
    have hmap : (some existing).mapM (Program.parse · path) = .error f := by
      change (some <$> Program.parse existing path : Outcome (Option Program)) = _
      rw [hp]
      rfl
    rw [hmap] at h
    cases h
  | ok p =>
    have hmap : (some existing).mapM (Program.parse · path) = .ok (some p) := by
      change (some <$> Program.parse existing path : Outcome (Option Program)) = _
      rw [hp]
      rfl
    rw [hmap] at h
    dsimp only at h
    rw [Option.getD_some] at h
    rcases hr : (mergeEndpoint e path).perform p with ⟨q, r, logs⟩
    rw [hr] at h
    cases r with
    | error f => cases h
    | ok u =>
      cases h
      exact ⟨p, logs, rfl, hr⟩

theorem parse_source {source : List Char} {path : Option Text} {p : Program} {tree : Concrete}
    (h : Program.parse (Text.ofChars source) path = .ok p) (htree : Grammar.recognise source = .ok tree) :
    sequence (readStatements tree.children) = .ok p.body ∧ p.layout = {} := by
  unfold Program.parse at h
  rw [Text.toChars?_ofChars] at h
  dsimp only at h
  rw [htree] at h
  dsimp only at h
  split at h <;> cases h
  exact ⟨by assumption, rfl⟩

/-- There is one declaration of a kind in the end exactly when none of the kind hides, if there was one at most. -/
theorem declaredTimes_eq_one {q : Query} {ns ns' : List Node} (hq : q.isDeclaration = true)
    (h : sequence (readStatements ts) = .ok ns) (hone : (items ts).countP q.findsTree ≤ 1)
    (hcount : ns'.countP q.finds = max 1 (ns.countP q.finds)) :
    declaredTimes q ns' (keptItems ts) = 1 ↔ ∀ t ∈ items ts, q.findsTree t = true → t.isOpen = true := by
  have hsplit := List.countP_eq_countP_filter_add (items ts) q.findsTree isOpen
  rw [List.countP_filter, List.countP_filter] at hsplit
  have hzero : (∀ t ∈ items ts, q.findsTree t = true → t.isOpen = true) ↔
      (items ts).countP (fun t => q.findsTree t && !t.isOpen) = 0 := by
    simp [List.countP_eq_zero]
  rw [hzero, declaredTimes, countP_keptItems h, hcount, countP_statements h hq]
  omega

theorem recognised_of_toOption {source : List Char} {tree : Concrete} (h : (Grammar.recognise source).toOption = some tree) :
    Grammar.recognise source = .ok tree := by
  cases hr : Grammar.recognise source with
  | error e =>
    rw [hr] at h
    cases h
  | ok t =>
    rw [hr] at h
    cases h
    rfl

/-- A module with a return that hides. -/
def hidingModule : String :=
  "// pets\nexport default function pets() \x7b\n    function GET(req, res) \x7b\x7d\n    return /* all */ \x7b\x7d;\n\x7d\n"

end ApiRoutes.Route
