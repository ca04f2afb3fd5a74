import ApiRoutes.Yaml.Moment
/-!
# Tags

A tag says what kind of value a node stands for.  A plain scalar without a tag gets one by its
spelling (`Tag.ofSpelling`).
-/
namespace ApiRoutes.Yaml

/-- What a node stands for. -/
inductive Tag where
  | null | bool | int | float | binary | timestamp | text
  | sequence | mapping | set | orderedMap | pairs
  /-- The key of what is merged into a mapping. -/
  | merge
  /-- The key of the value that a mapping stands for as a scalar. -/
  | value
  | other (uri : Text)
  deriving DecidableEq

namespace Tag

/-- What the tags of the language start with. -/
def standardLead : Text := "tag:yaml.org,2002:"

/-- The tags of the language and their names. -/
def standard : List (Tag × String) := [
  (.null, "null"), (.bool, "bool"), (.int, "int"), (.float, "float"), (.binary, "binary"),
  (.timestamp, "timestamp"), (.text, "str"), (.sequence, "seq"), (.mapping, "map"), (.set, "set"),
  (.orderedMap, "omap"), (.pairs, "pairs"), (.merge, "merge"), (.value, "value")]

def name? (t : Tag) : Option String := (standard.find? fun s => s.1 == t).map (·.2)

def uri : Tag → Text
  | .other uri => uri
  | t => standardLead ++ (t.name?.getD "")

def ofUri (uri : Text) : Tag :=
  match Text.dropLead? standardLead uri with
  | none => .other uri
  | some name => match standard.find? fun s => name == s.2 with
    | some (t, _) => t
    | none => .other uri

/-! ## Tags by spelling -/

/-- Words for truth values in one case, capitalised, and in capitals. -/
def isTruthWord (cs : List Char) : Bool :=
  ["yes", "Yes", "YES", "no", "No", "NO", "true", "True", "TRUE", "false", "False", "FALSE",
    "on", "On", "ON", "off", "Off", "OFF"].contains (String.ofList cs)

def isNullWord (cs : List Char) : Bool :=
  ["~", "null", "Null", "NULL", ""].contains (String.ofList cs)

def dropSign : List Char → List Char
  | '+' :: cs => cs
  | '-' :: cs => cs
  | cs => cs

def isDigitOr_ (c : Char) : Bool := c.isDigit || c == '_'

/-- A digit, and then digits and underscores. -/
def isDigits : List Char → Bool
  | c :: cs => c.isDigit && cs.all isDigitOr_
  | [] => false

def isSixtieth : List Char → Bool
  | [d] => d.isDigit
  | [t, d] => '0' ≤ t && t ≤ '5' && d.isDigit
  | _ => false

def colonParts : List Char → List (List Char)
  | [] => [[]]
  | c :: cs =>
    if c == ':' then [] :: colonParts cs
    else match colonParts cs with
      | part :: rest => (c :: part) :: rest
      | [] => [[c]]

/-- Is this a whole number?  It may be written to base two, eight, ten or sixteen, and with colons
to base sixty. -/
def isInteger (cs : List Char) : Bool :=
  match dropSign cs with
  | ['0'] => true
  | '0' :: 'b' :: ds => !ds.isEmpty && ds.all fun c => c == '0' || c == '1' || c == '_'
  | '0' :: 'x' :: ds => !ds.isEmpty && ds.all fun c => Text.isHexDigit (.scalar c) || c == '_'
  | '0' :: ds => ds.all fun c => ('0' ≤ c && c ≤ '7') || c == '_'
  | ds => match colonParts ds with
    | first :: rest => isDigits first && rest.all isSixtieth
    | [] => false

/-- Is this an exponent, with a sign, or nothing? -/
def isExponent : List Char → Bool
  | [] => true
  | e :: s :: ds =>
    (e == 'e' || e == 'E') && (s == '+' || s == '-') && !ds.isEmpty && ds.all Char.isDigit
  | _ => false

/-- Is this a number with a point, or a word for one?  Before the exponent there has to be a
point. -/
def isFloat (cs : List Char) : Bool :=
  let unsigned := dropSign cs
  let whole := unsigned.takeWhile (· != '.')
  match cs, unsigned, unsigned.dropWhile (· != '.') with
  | '.' :: c :: ds, _, _ =>
    (c.isDigit && isExponent (ds.dropWhile isDigitOr_)) ||
      ["inf", "Inf", "INF", "nan", "NaN", "NAN"].contains (String.ofList (c :: ds))
  | _, '.' :: ds, _ => ["inf", "Inf", "INF"].contains (String.ofList ds)
  | _, _, '.' :: decimals =>
    match colonParts whole with
    | [digits] => isDigits digits && isExponent (decimals.dropWhile isDigitOr_)
    | first :: rest => isDigits first && rest.all isSixtieth && decimals.all isDigitOr_
    | [] => false
  | _, _, _ => false

def ofSpelling (t : Text) : Tag :=
  match t.toChars? with
  | none => .text
  | some cs =>
    if isTruthWord cs then .bool
    else if isFloat cs then .float
    else if isInteger cs then .int
    else if cs == ['<', '<'] then .merge
    else if isNullWord cs then .null
    else if Moment.isSpelling cs then .timestamp
    else if cs == ['='] then .value
    else .text

end Tag

end ApiRoutes.Yaml
