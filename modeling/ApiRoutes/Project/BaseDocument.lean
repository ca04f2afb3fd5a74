import ApiRoutes.Spec.Document
import ApiRoutes.Yaml.Writer
/-!
# The base document

Every version of an API serves the document that it was generated from, without the paths.
-/
namespace ApiRoutes.Project

def baseDocumentFile (tag : Text) : Text := "src/api/" ++ tag ++ "/base-api-doc.yml"

def renderBaseDocument (d : Spec.ApiDocument) : Outcome Text := d.baseTree.map Yaml.render

end ApiRoutes.Project
