import ApiRoutes.Text
/-!
# What can be wrong with a JSON text
-/
namespace ApiRoutes.Json

/-- Why a text is not JSON. -/
inductive Cause where
  | value
  | propertyName
  | colon
  | comma
  | extraData
  | unterminatedString
  | controlCharacter
  | escape
  | unicodeEscape
  | byteOrderMark
  /-- An integer of more digits than are read. -/
  | integerTooLong
  deriving DecidableEq, Repr

def Cause.message : Cause → String
  | .value => "Expecting value"
  | .propertyName => "Expecting property name enclosed in double quotes"
  | .colon => "Expecting ':' delimiter"
  | .comma => "Expecting ',' delimiter"
  | .extraData => "Extra data"
  | .unterminatedString => "Unterminated string starting at"
  | .controlCharacter => "Invalid control character at"
  | .escape => "Invalid \\escape"
  | .unicodeEscape => "Invalid \\uXXXX escape"
  | .byteOrderMark => "Unexpected UTF-8 BOM (decode using utf-8-sig)"
  | .integerTooLong => "Exceeds the limit (4300 digits) for integer string conversion"

/-- A cause and the line it was found on, counted from 1. -/
structure Fault where
  cause : Cause
  line : Nat
  deriving DecidableEq, Repr

end ApiRoutes.Json
