import ApiRoutes.Route.Handler
import ApiRoutes.Script.Reader
/-!
# The bootstrap module

The module that starts an app imports every API version and calls it from one function, the hook,
with the app.  A version counts as registered as soon as the hook calls it; the module is then left
as it is.
-/
namespace ApiRoutes.Project

open Script Route

/-- How the bootstrap module of an app is wired. -/
structure Wiring where
  /-- The function that registers the versions. -/
  hook : Text := "initializeApiVersions"
  /-- The app that each version receives. -/
  app : Text := "app"

/-- The folder of an API version, as a module of the app imports it. -/
def versionModule (tag : Text) : Text := "./api/" ++ tag

def isComment (n : Node) : Bool :=
  match n.shape with
  | .comment _ => true
  | _ => false

/-- Where imports of versions go: after the first statement, headers set apart. -/
def importPosition (body : List Node) : Nat :=
  match body.findIdx? fun n => !isComment n with
  | some i => i + 1
  | none => body.length

def versionImport (tag : Text) : Node :=
  .ofShape (.imports tag (.literal (.text (versionModule tag))))

def versionCall (tag app : Text) : Node := .statement ((Node.identifier tag).call [.identifier app])

def withImport (tag : Text) (body : List Node) : List Node :=
  if ((Query.imports (some tag)).index? body).isSome then body
  else body.insertIdx (importPosition body) (versionImport tag)

/-- What is to happen to a bootstrap module. -/
inductive Registration where
  /-- There is no hook to register a version in. -/
  | noHook
  /-- The hook calls the version. -/
  | registered
  /-- The statements with the version added. -/
  | added (body : List Node)

/-- Registers a version among the statements of a bootstrap module. -/
def register (w : Wiring) (tag : Text) (body : List Node) : Registration :=
  match (Query.function (some w.hook)).index? body with
  | none => .noHook
  | some i =>
    let hook := functionAt i body
    if ((Query.invocation (some tag)).index? hook.body).isSome then .registered
    else
      let hook := { hook with body := hook.body ++ [versionCall tag w.app] }
      .added (withImport tag (putFunction i hook body))

/-- The text of a bootstrap module with a version registered; nothing when it stays as it is. -/
def patchBootstrap (w : Wiring) (tag text : Text) (path : Option Text) :
    List Record × Outcome (Option Text) :=
  let place : Text := match path with
    | some (c :: p) => c :: p
    | _ => "bootstrap"
  match Program.parse text path with
  | .error f => ([], .error f)
  | .ok p =>
    match register w tag p.body with
    | .noHook =>
      ([⟨.warning, place ++ ": no " ++ w.hook ++ "() function, api version " ++ tag ++
        " not registered"⟩], .ok none)
    | .registered => ([], .ok none)
    | .added body =>
      ([⟨.info, "adding version " ++ tag ++ " to " ++ place⟩],
        (Program.render { p with body }).map some)

end ApiRoutes.Project
