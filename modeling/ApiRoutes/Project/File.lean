import ApiRoutes.Text.Patch
/-!
# Generated files
-/
namespace ApiRoutes.Project

/-- A file that was generated: its path in the project, its text, and its text before. -/
structure GeneratedFile where
  path : Text
  content : Text
  previous : Option Text := none
  deriving DecidableEq

namespace GeneratedFile

def isChanged (f : GeneratedFile) : Bool := f.previous != some f.content

def patch (f : GeneratedFile) : Text :=
  let oldName : Text := if f.previous.isSome then "a/" ++ f.path else "/dev/null"
  Patch.render oldName ("b/" ++ f.path) (f.previous.getD []) f.content

end GeneratedFile

end ApiRoutes.Project
