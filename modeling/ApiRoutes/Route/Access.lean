import ApiRoutes.Script.Build
import ApiRoutes.Script.Printer
import ApiRoutes.Spec.Operation
/-!
# Accesses to request parameters

The expression that reads a parameter from a request (`accessTo`), and its recognition in a script
(`recogniseAccess?`).
-/
namespace ApiRoutes.Route

open Script

/-- The places of a request that a parameter can be read from. -/
def accessLocations : List String := ["query", "path", "header", "body", "formData"]

/-- The name of the request in new handlers. -/
def defaultRequest : Text := "req"

/-- The access to a parameter of a request. -/
def accessTo (request : Text) (p : Spec.Parameter) : Outcome Access :=
  if accessLocations.any fun l => p.location == l then .ok ⟨request, p.location, p.name⟩
  else .error (.unsupportedLocation p.location p.name)

/-- The location whose parameters a member of a request holds. -/
def locationOf? (collection : Text) : Option Text :=
  (requestCollections.find? fun p => collection == p.2).map fun p => p.1

/-- The access that an expression is.  The body of a request is read as a whole, so its access goes
by the name of the property that holds it. -/
def recogniseAccess? (e : Node) (key : Text) : Option Access :=
  match e.shape with
  | .access a => some a
  | .call ⟨_, .member ⟨_, .identifier request⟩ method false⟩ [⟨_, .literal (.text name) _⟩] =>
    if method = "get" then some ⟨request, "header", name⟩ else none
  | .member ⟨_, .identifier request⟩ property false =>
    if property = "body" then some ⟨request, "body", key⟩ else none
  | .member ⟨_, .member ⟨_, .identifier request⟩ collection false⟩ property _ =>
    (locationOf? collection).map fun location => ⟨request, location, property⟩
  | _ => none

/-- The name that a function with these parameters has for the request. -/
def requestName (params : List Text) : Text :=
  match params with
  | p :: _ => if isIdentifier p then p else defaultRequest
  | [] => defaultRequest

end ApiRoutes.Route
