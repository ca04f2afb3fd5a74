import ApiRoutes.Proofs.Route.UpToDate
/-!
# Merging again

Merging an endpoint into the module that merging it has left changes nothing, neither declarations
nor layout nor comments (`mergeEndpoint_again`).  The tree is the one that lives on between the merges,
whatever it looked like before them; no text is written or read.
-/
namespace ApiRoutes.Route

open Script

/-- **A second merge of an endpoint** succeeds and leaves the module as the first one left it, wherever
the two say that the module comes from. -/
theorem mergeEndpoint_again {e : Spec.Endpoint} {path : Option Text} (path' : Option Text)
    {p p' : Program} {logs : List Record} (h : (mergeEndpoint e path).perform p = (p', .ok (), logs)) :
    ∃ logs', (mergeEndpoint e path').perform p' = (p', .ok (), logs') := by
  obtain ⟨hx, body, hb, rfl⟩ := mergeEndpoint_takes (Edit.Takes.of_perform h)
  have hbody : (mergeBody e).Gives (routeBody (withRouteBody body p)) () body := by
    rw [routeBody_withRouteBody hx]
    exact (mergeBody_upToDate hb).mergeBody_gives
  have hexport : (exported? (withExport (withRouteBody body p).body)).isSome = true := by
    rw [withExport_withRouteBody, exported?_withRouteBody, Option.isSome_map]
    exact hx
  have hagain : (mergeEndpoint e path').Gives (withRouteBody body p) () _ :=
    mergeEndpoint_gives hexport hbody
  rw [withRouteBody_withRouteBody] at hagain
  exact hagain.perform

/-- A module with two collections, two handlers of a method and two returns, of which a merge takes the
first each. -/
def repeatedModule : Program where
  body := [
    .ofShape (.exportDefault (.ofShape (.function {
      name := none
      body := [
        .const "parameters" (.object []),
        .ofShape (.returns none),
        .const "parameters" (.array []),
        .ofShape (.function { name := some "GET" }),
        .ofShape (.function { name := some "GET", params := ["request"] }),
        .ofShape (.returns none)] })))]

/-- A module with repeated declarations is as the first merge leaves it. -/
theorem mergeEndpoint_again_sample :
    ∃ p' logs logs', (mergeEndpoint sampleEndpoint none).perform repeatedModule = (p', .ok (), logs) ∧
      (mergeEndpoint sampleEndpoint none).perform p' = (p', .ok (), logs') := by
  have h : (mergeEndpoint sampleEndpoint none).perform repeatedModule = (_, .ok (), _) :=
    Edit.perform_of_toBool (by decide +kernel)
  obtain ⟨logs', hagain⟩ := mergeEndpoint_again none h
  exact ⟨_, _, logs', h, hagain⟩

end ApiRoutes.Route
