import ApiRoutes.Script.Quoted
/-!
# Names

A name that is a plain identifier stands bare in property keys and member accesses; every other
name is quoted (`propertyKey`, `memberText`).
-/
namespace ApiRoutes.Script

def reservedWords : List String := [
  "break", "case", "catch", "class", "const", "continue", "debugger", "default", "delete", "do",
  "else", "enum", "export", "extends", "false", "finally", "for", "function", "if", "import", "in",
  "instanceof", "new", "null", "return", "super", "switch", "this", "throw", "true", "try",
  "typeof", "var", "void", "while", "with", "yield", "let", "static", "await", "implements",
  "interface", "package", "private", "protected", "public"]

def isReserved (name : Text) : Bool := reservedWords.any fun w => name == w

def isNameStart (c : CodePoint) : Bool := c.holds fun c => c.isAlpha || c == '_' || c == '$'

def isNamePart (c : CodePoint) : Bool := c.holds fun c => c.isAlphanum || c == '_' || c == '$'

/-- Is there nothing, or a single line feed? -/
def isLineEnd (t : Text) : Bool := t.isEmpty || t == "\n"

def isIdentifier (name : Text) : Bool :=
  match name with
  | [] => false
  | c :: r => isNameStart c && isLineEnd (r.dropWhile isNamePart) && !isReserved name

def propertyKey (name : Text) : Text := if isIdentifier name then name else quote name

def memberText (object name : Text) : Text :=
  if isIdentifier name then object ++ "." ++ name else object ++ "[" ++ quote name ++ "]"

end ApiRoutes.Script
