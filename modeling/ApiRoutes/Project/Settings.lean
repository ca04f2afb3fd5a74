import ApiRoutes.Disk.Path
import ApiRoutes.Project.Bootstrap
import ApiRoutes.Spec.Model
/-!
# Settings

Where an app is generated, and how it is put together.
-/
namespace ApiRoutes.Project

open Spec

/-- What is written when endpoints fail. -/
inductive WritePolicy where
  /-- No route module at all. -/
  | allOrNothing
  /-- The modules of all endpoints that did not fail. -/
  | keepGoing
  deriving DecidableEq

def WritePolicy.name : WritePolicy → String
  | .allOrNothing => "all-or-nothing"
  | .keepGoing => "keep-going"

def WritePolicy.every : List WritePolicy := [.allOrNothing, .keepGoing]

def WritePolicy.ofName? (name : Text) : Option WritePolicy := every.find? fun w => name == w.name

/-- The settings of a generation. -/
structure Settings where
  /-- The folder of the app. -/
  target : Path := {}
  /-- The bootstrap module, from the folder of the app. -/
  bootstrapFile : Text := "src/index.js"
  wiring : Wiring := {}
  /-- The manifest, from the folder of the app. -/
  manifestFile : Text := "package.json"
  policy : WritePolicy := .allOrNothing

namespace Settings

def bootstrapPath (s : Settings) : Path := s.target.child s.bootstrapFile

def manifestPath (s : Settings) : Path := s.target.child s.manifestFile

def checkPath : Value → Checked Path
  | .text t => .ok (.ofText t)
  | _ => fault .notAPath

def checkPolicy : Value → Checked WritePolicy
  | .text t => match WritePolicy.ofName? t with
    | some w => .ok w
    | none => fault .notAChoice
  | _ => fault .notAChoice

/-- The settings that a mapping describes; those that it does not mention have their usual values. -/
def check (entries : Entries) : Checked Settings := do
  let usual : Settings := {}
  let ((target, bootstrapFile), (hook, app), manifestFile, policy) ←
    both
      (both (allowed "target" checkPath entries) (allowed "bootstrap_file" checkText entries))
      (both
        (both (allowed "init_hook" checkText entries) (allowed "app_identifier" checkText entries))
        (both (allowed "manifest_file" checkText entries)
          (allowed "write_policy" checkPolicy entries)))
  return {
    target := target.getD usual.target
    bootstrapFile := bootstrapFile.getD usual.bootstrapFile
    wiring := ⟨hook.getD usual.wiring.hook, app.getD usual.wiring.app⟩
    manifestFile := manifestFile.getD usual.manifestFile
    policy := policy.getD usual.policy }

end Settings

end ApiRoutes.Project
