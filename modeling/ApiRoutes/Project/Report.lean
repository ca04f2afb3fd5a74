import ApiRoutes.Failure
import ApiRoutes.Project.File
/-!
# Reports

What a generation did, or would do, to the files of an app.
-/
namespace ApiRoutes.Project

/-- What became of one endpoint. -/
structure EndpointResult where
  /-- The path of the endpoint in the document. -/
  endpoint : Text
  /-- The path of its module, unless that was refused. -/
  path : Option Text
  outcome : Outcome GeneratedFile

def EndpointResult.file? (r : EndpointResult) : Option GeneratedFile :=
  match r.outcome with
  | .ok f => some f
  | .error _ => none

def EndpointResult.failure? (r : EndpointResult) : Option Failure :=
  match r.outcome with
  | .ok _ => none
  | .error f => some f

/-- What a generation did. -/
structure Report where
  tag : Text
  /-- Was nothing to be written? -/
  dryRun : Bool
  /-- The files of the skeleton that were created. -/
  staged : List Text
  /-- The bootstrap module, when the version was registered in it. -/
  bootstrap : Option GeneratedFile
  baseDocument : GeneratedFile
  endpoints : List EndpointResult
  /-- The paths of the files that were written. -/
  written : List Text := []
  manifestUpdated : Bool := false

namespace Report

def modules (r : Report) : List GeneratedFile := r.endpoints.filterMap EndpointResult.file?

def failures (r : Report) : List Failure := r.endpoints.filterMap EndpointResult.failure?

def isOk (r : Report) : Bool := r.failures.isEmpty

def changedFiles (r : Report) : List GeneratedFile :=
  (r.bootstrap.toList ++ r.baseDocument :: r.modules).filter GeneratedFile.isChanged

def patch (r : Report) : Text := r.changedFiles.flatMap GeneratedFile.patch

end Report

end ApiRoutes.Project
