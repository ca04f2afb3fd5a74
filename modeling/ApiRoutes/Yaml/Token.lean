import ApiRoutes.Yaml.Cursor
/-!
# Tokens of a YAML text
-/
namespace ApiRoutes.Yaml

/-- How a scalar is written. -/
inductive Style where
  | plain
  | singleQuoted
  | doubleQuoted
  | literal
  | folded
  deriving DecidableEq, Repr

/-- What a directive says. -/
inductive Directive where
  /-- The version of the language; only the first part counts. -/
  | version (major : Nat)
  /-- A handle for a prefix of tags. -/
  | tag (handle : List Char) (lead : List Char)
  /-- Anything else is ignored. -/
  | other
  deriving DecidableEq

/-- What a token is. -/
inductive TokenKind where
  | directive (d : Directive)
  | documentStart
  | documentEnd
  | streamEnd
  | blockSequenceStart
  | blockMappingStart
  | blockEnd
  | flowSequenceStart
  | flowSequenceEnd
  | flowMappingStart
  | flowMappingEnd
  | key
  | value
  | blockEntry
  | flowEntry
  | alias (name : List Char)
  | anchor (name : List Char)
  /-- A tag: its handle, unless it is written out, and the rest of it. -/
  | tag (handle : Option (List Char)) (suffix : List Char)
  | scalar (text : Text) (style : Style)
  deriving DecidableEq

def TokenKind.name : TokenKind → String
  | .directive _ => "<directive>"
  | .documentStart => "<document start>"
  | .documentEnd => "<document end>"
  | .streamEnd => "<stream end>"
  | .blockSequenceStart => "<block sequence start>"
  | .blockMappingStart => "<block mapping start>"
  | .blockEnd => "<block end>"
  | .flowSequenceStart => "["
  | .flowSequenceEnd => "]"
  | .flowMappingStart => "\x7b"
  | .flowMappingEnd => "\x7d"
  | .key => "?"
  | .value => ":"
  | .blockEntry => "-"
  | .flowEntry => ","
  | .alias _ => "<alias>"
  | .anchor _ => "<anchor>"
  | .tag .. => "<tag>"
  | .scalar .. => "<scalar>"

/-- A token and the line that it starts on. -/
structure Token where
  kind : TokenKind
  line : Nat
  deriving DecidableEq

/-- A list of tokens that ends where the text is broken, if it is. -/
structure Tokens where
  list : List Token
  fault : Option Fault := none

end ApiRoutes.Yaml
