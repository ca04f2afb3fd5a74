import ApiRoutes.Proofs.Route.Preservation
import ApiRoutes.Proofs.Route.Uniqueness
/-!
# Remarks at managed statements

The comments that people put above a statement or behind it (`remarks`).  A merge that finds a declaration
of parameters, a handler or a return changes something inside, and leaves the layout of the statement alone;
the documentation of a method it writes anew with a comment of its own, and what was said there is lost
(`mergeEndpoints_keeps_remarks`).
-/
namespace ApiRoutes.Route

open Script

/-- The comments that a statement carries, above it and behind it. -/
def remarks (n : Node) : List Comment := n.layout.comments ++ n.layout.trailing.toList

/-- The layout of a documentation that is written in the place of another statement. -/
def documentationLayout (verb : Text) (old : Layout) : Layout where
  comments := Node.lineComments ("Documentation for method " ++ verb)
  blankBefore := old.blankBefore

/-! ## Single statements -/

theorem layout_withShape (s : Shape) (n : Node) : (n.withShape s).layout = n.layout := by
  cases n; rfl

theorem layout_documentingFor (verb : Text) (value old : Node) :
    (documentingFor verb value old).layout = documentationLayout verb old.layout :=
  Node.layout_withLayout _ _

namespace Managed

/-- **What is not a documentation keeps its layout** when it is revised. -/
theorem Revises.layout_eq {m : Managed} {a b : Node} (h : m.Revises a b) (hm : ∀ verb, m ≠ .documentation verb) :
    b.layout = a.layout := by
  cases m with
  | collection =>
    obtain ⟨c, rfl⟩ := h
    unfold changeVariable
    split
    · exact layout_withShape _ a
    · rfl
  | handler name =>
    obtain ⟨f, c, -, rfl⟩ := h
    exact layout_withShape _ a
  | documentation verb => exact absurd rfl (hm verb)
  | returns =>
    obtain ⟨verbs, rfl⟩ := h
    exact layout_withShape _ a

/-! ## Runs of steps -/

theorem Step.find?_self {m : Managed} {a b : List Node} {n : Node} (h : Step m a b) (hn : a.find? m.finds = some n) :
    ∃ n', b.find? m.finds = some n' ∧ m.Revises n n' := by
  cases h with
  | @revise _ g hg _ =>
    refine ⟨g n, ?_, hg n (List.find?_some hn)⟩
    rw [find?_alterFirst fun x hx => by rw [finds_of_of?_eq ((hg x hx).of?_eq hx), hx], hn]
    rfl
  | insert _ hnone _ =>
    rw [find?_of_not_any hnone] at hn
    cases hn

/-- **The first statement of a kind is revised** by steps that there are for the kind. -/
theorem Steps.revises_first {ms : List Managed} {m : Managed} {a b : List Node} (h : Steps ms a b) (hm : m ∈ ms) :
    ∀ {n : Node}, a.find? m.finds = some n → ∃ n', b.find? m.finds = some n' ∧ m.Revises n n' := by
  induction h with
  | nil => cases hm
  | @cons m' ms a b c hs hrest ih =>
    intro n hn
    by_cases hms : m ∈ ms
    · by_cases hmm : m = m'
      · subst hmm
        obtain ⟨n₁, hn₁, hr₁⟩ := hs.find?_self hn
        obtain ⟨n₂, hn₂, hr₂⟩ := ih hms hn₁
        exact ⟨n₂, hn₂, hr₁.trans hr₂⟩
      · exact ih hms ((hs.find? hmm).trans hn)
    · obtain rfl := (List.mem_cons.1 hm).resolve_right hms
      obtain ⟨n₁, hn₁, hr₁⟩ := hs.find?_self hn
      exact ⟨n₁, (hrest.find? hms).trans hn₁, hr₁⟩

end Managed

namespace Grown

variable {ms : List Managed} {before after kept new : List Node}

/-- What became of the first statement of a kind is the first one of the kind afterwards. -/
theorem getElem?_first (h : Grown ms before after kept new) {m : Managed} {i : Nat}
    (hi : m.query.index? before = some i) : kept[i]? = after.find? m.finds := by
  have hk : kept.findIdx? m.finds = some i := (findIdx?_eq_of_map_eq (h.map_finds m)).trans hi
  rw [h.woven.find? (h.not_any_new (any_of_findIdx? hk))]
  exact getElem?_of_findIdx? hk

end Grown

/-! ## Whole runs -/

/-- **A run of merges keeps the remarks at statements, but for those at documentations.**  What becomes of a
statement of the exported function stands in the layout of the statement, with all its comments; only the first
documentation of a method that the endpoints have gets the comment of the merge instead. -/
theorem mergeEndpoints_keeps_remarks {es : List Spec.Endpoint} {path : Option Text} {p p' : Program}
    {logs : List Record} (h : (mergeEndpoints es path).perform p = (p', .ok (), logs)) :
    ∃ kept new, Grown (es.flatMap managedBy) (routeBody p) (routeBody p') kept new ∧
      ∀ i a b, (routeBody p)[i]? = some a → kept[i]? = some b →
        ((∀ verb ∈ es.flatMap Spec.Endpoint.verbs, (Query.documentation (some verb)).index? (routeBody p) ≠ some i) →
          b.layout = a.layout ∧ remarks b = remarks a) ∧
        ∀ verb ∈ es.flatMap Spec.Endpoint.verbs, (Query.documentation (some verb)).index? (routeBody p) = some i →
          b.layout = documentationLayout verb a.layout ∧
            remarks b = Node.lineComments ("Documentation for method " ++ verb) := by
  obtain ⟨-, ms, hs, hms⟩ := mergeEndpoints_takes (Edit.Takes.of_perform h)
  obtain ⟨kept, new, hgrown⟩ := (Grown.refl (es.flatMap managedBy) (routeBody p)).steps hs fun m hm => (hms m).1 hm
  refine ⟨kept, new, hgrown, fun i a b ha hb => ⟨fun hnone => ?_, fun verb hverb hi => ?_⟩⟩
  · have hlayout : b.layout = a.layout := by
      obtain rfl | ⟨m, hm, hi, hr⟩ := hgrown.unchanged i a b ha hb
      · rfl
      · refine hr.layout_eq ?_
        rintro verb rfl
        exact hnone verb (documentation_mem_managed.1 hm) hi
    exact ⟨hlayout, by rw [remarks, hlayout, remarks]⟩
  · have hfirst : (routeBody p).find? (Managed.documentation verb).finds = some a :=
      (getElem?_of_findIdx? hi).symm.trans ha
    obtain ⟨n, hn, value, rfl⟩ := hs.revises_first ((hms _).2 (documentation_mem_managed.2 hverb)) hfirst
    have hlast : kept[i]? = (routeBody p').find? (Managed.documentation verb).finds :=
      hgrown.getElem?_first (m := .documentation verb) hi
    obtain rfl := Option.some.inj (hb.symm.trans (hlast.trans hn))
    rw [remarks, layout_documentingFor]
    exact ⟨rfl, List.append_nil _⟩

/-- A module with remarks at the handler, the documentation and the return. -/
def remarkedModule : Program where
  body := [.ofShape (.exportDefault (.ofShape (.function {
    name := some "endpoint"
    body := [
      (newHandler "GET" "/a").withComments [{ text := " GET on \"/a\"" }, { text := " Answers from the cache." }],
      (documenting "GET" (.object [])).withLayout {
        comments := [{ text := " Documentation for method GET" }, { text := " Reviewed with the front end." }]
        trailing := some { text := " see the wiki" } },
      (returning ["GET"]).withLayout { trailing := some { text := " all methods" } }] })))]

/-- An endpoint with one method. -/
def remarkedEndpoint : Spec.Endpoint where
  path := "/a"
  operations := [("GET", {})]

/-- Of three statements with remarks the first and the last one keep theirs. -/
theorem mergeEndpoints_keeps_remarks_sample :
    ∃ p' logs, (mergeEndpoints [remarkedEndpoint, sampleEndpoint] none).perform remarkedModule = (p', .ok (), logs) ∧
    ∃ kept new, Grown ([remarkedEndpoint, sampleEndpoint].flatMap managedBy)
        (routeBody remarkedModule) (routeBody p') kept new ∧
      ∀ i a b, (routeBody remarkedModule)[i]? = some a → kept[i]? = some b →
        (i ≠ 1 → remarks b = remarks a) ∧ (i = 1 → remarks b = [{ text := " Documentation for method GET" }]) := by
  have h : (mergeEndpoints [remarkedEndpoint, sampleEndpoint] none).perform remarkedModule = (_, .ok (), _) :=
    Edit.perform_of_toBool (by decide +kernel)
  have hverbs : [remarkedEndpoint, sampleEndpoint].flatMap Spec.Endpoint.verbs = ["GET", "GET", "POST"] := by decide
  have hget : (Query.documentation (some "GET")).index? (routeBody remarkedModule) = some 1 := by decide
  have hpost : (Query.documentation (some "POST")).index? (routeBody remarkedModule) = none := by decide
  obtain ⟨kept, new, hgrown, hremarks⟩ := mergeEndpoints_keeps_remarks h
  refine ⟨_, _, h, kept, new, hgrown, fun i a b ha hb => ⟨fun hi => ?_, fun hi => ?_⟩⟩
  · refine ((hremarks i a b ha hb).1 fun verb hverb hindex => ?_).2
    rw [hverbs] at hverb
    obtain rfl | rfl | rfl : verb = "GET" ∨ verb = "GET" ∨ verb = "POST" := by simpa using hverb
    · exact hi (Option.some.inj (hindex.symm.trans hget))
    · exact hi (Option.some.inj (hindex.symm.trans hget))
    · rw [hpost] at hindex
      cases hindex
  · subst hi
    exact ((hremarks 1 a b ha hb).2 "GET" (by rw [hverbs]; decide) hget).2

/-- **What is remarked at a documentation is lost**: no statement carries it after the merge. -/
theorem mergeEndpoint_loses_remarks :
    ∃ p' logs, (mergeEndpoint remarkedEndpoint none).perform remarkedModule = (p', .ok (), logs) ∧
      ∀ c ∈ [{ text := " Reviewed with the front end." }, { text := " see the wiki" }],
        (∃ n ∈ routeBody remarkedModule, c ∈ remarks n) ∧ ∀ n ∈ routeBody p', c ∉ remarks n := by
  have h : (mergeEndpoint remarkedEndpoint none).perform remarkedModule = (_, .ok (), _) :=
    Edit.perform_of_toBool (by decide +kernel)
  exact ⟨_, _, h, by decide +kernel⟩

end ApiRoutes.Route
