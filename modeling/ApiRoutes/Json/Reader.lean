import ApiRoutes.Json.Fault
import ApiRoutes.Value
/-!
# Reading JSON

`Json.parse` reads a text as a document value.  Besides the values of the grammar the words `NaN`,
`Infinity` and `-Infinity` are read as numbers, and of equal keys in an object the last one wins.
-/
namespace ApiRoutes.Json

/-- Where and why reading stops. -/
structure Stop where
  cause : Cause
  /-- The text from the fault on. -/
  rest : Text

abbrev Reading (α : Type) := Except Stop (α × Text)

def stop {α : Type} (cause : Cause) (rest : Text) : Reading α := .error ⟨cause, rest⟩

def isBlank (c : CodePoint) : Bool := c == ' ' || c == '\t' || c == '\n' || c == '\r'

def skipBlanks (t : Text) : Text := t.dropWhile isBlank

/-! ## Strings -/

/-- A code point of a string, and whether an escape by number spells it. -/
abbrev Spelled := CodePoint × Bool

def letterEscape? (c : CodePoint) : Option CodePoint :=
  match c with
  | '"' => some '"'
  | '\\' => some '\\'
  | '/' => some '/'
  | 'b' => some '\x08'
  | 'f' => some '\x0c'
  | 'n' => some '\n'
  | 'r' => some '\r'
  | 't' => some '\t'
  | _ => none

def fourDigits? (a b c d : CodePoint) : Option CodePoint :=
  if [a, b, c, d].all Text.isHexDigit then CodePoint.ofNat? (Text.hexValue [a, b, c, d]) else none

def before (c : Spelled) (r : Reading (List Spelled)) : Reading (List Spelled) :=
  r.map fun (cs, rest) => (c :: cs, rest)

/-- Reads a string after its opening quote; `start` is the text from that quote on.  Four digits
that end the text are no escape: the closing quote has to follow. -/
def readSpelled (start : Text) : Text → Reading (List Spelled)
  | [] => stop .unterminatedString start
  | .scalar '"' :: rest => .ok ([], rest)
  | .scalar '\\' :: .scalar 'u' :: a :: b :: c :: d :: q :: rest =>
    match fourDigits? a b c d with
    | some e => before (e, true) (readSpelled start (q :: rest))
    | none => stop .unicodeEscape (.scalar 'u' :: a :: b :: c :: d :: q :: rest)
  | .scalar '\\' :: .scalar 'u' :: rest => stop .unicodeEscape (.scalar 'u' :: rest)
  | [.scalar '\\'] => stop .unterminatedString start
  | .scalar '\\' :: e :: rest =>
    match letterEscape? e with
    | some c => before (c, false) (readSpelled start rest)
    | none => stop .escape (.scalar '\\' :: e :: rest)
  | c :: rest =>
    if c.val < 0x20 then stop .controlCharacter (c :: rest)
    else before (c, false) (readSpelled start rest)

def joined? (high low : CodePoint) : Option CodePoint :=
  match high, low with
  | .surrogate h, .surrogate l =>
    if h.val < 0x400 ∧ 0x400 ≤ l.val then
      CodePoint.ofNat? (0x10000 + h.val * 0x400 + (l.val - 0x400))
    else none
  | _, _ => none

/-- The text of a string: two escapes in a row that are the halves of a character make one. -/
def joinHalves : List Spelled → Text
  | [] => []
  | [(c, _)] => [c]
  | (c, byNumber) :: (d, byNumber') :: rest =>
    match if byNumber && byNumber' then joined? c d else none with
    | some e => e :: joinHalves rest
    | none => c :: joinHalves ((d, byNumber') :: rest)

def readString (start rest : Text) : Reading Text :=
  (readSpelled start rest).map fun (cs, rest) => (joinHalves cs, rest)

/-! ## Numbers -/

/-- The digits at the front of a text, and what follows. -/
def leadingDigits : Text → List Char × Text
  | .scalar c :: rest =>
    if c.isDigit then
      let (ds, rest) := leadingDigits rest
      (c :: ds, rest)
    else ([], .scalar c :: rest)
  | t => ([], t)

/-- The decimals of a number: a point and digits. -/
def readDecimals (t : Text) : List Char × Text :=
  match t with
  | .scalar '.' :: r => match leadingDigits r with
    | ([], _) => ([], t)
    | (ds, rest) => ('.' :: ds, rest)
  | t => ([], t)

/-- The exponent of a number: a letter, perhaps a sign, digits. -/
def readExponent (t : Text) : List Char × Text :=
  match t with
  | .scalar e :: r =>
    if e = 'e' ∨ e = 'E' then
      let (sign, r) := match r with
        | .scalar '+' :: r => (['+'], r)
        | .scalar '-' :: r => (['-'], r)
        | r => ([], r)
      match leadingDigits r with
      | ([], _) => ([], t)
      | (ds, rest) => (e :: sign ++ ds, rest)
    else ([], t)
  | t => ([], t)

def maxIntegerDigits : Nat := 4300

/-- The number of a lexeme: a sign, digits, decimals and an exponent. -/
def numberOf (negative : Bool) (whole decimals exponent : List Char) : Except Cause Value :=
  if decimals.isEmpty && exponent.isEmpty then
    if maxIntegerDigits < whole.length then .error .integerTooLong
    else
      let n : Int := Binary64.digitsValue whole
      .ok (.int (if negative then -n else n))
  else
    match Binary64.readUnsigned? negative (whole ++ decimals ++ exponent) with
    | some x => .ok (.float x)
    | none => .error .value

/-- Reads a number after its sign; `start` is the text from the sign on.  A number starts with no
zero but a single one. -/
def readNumber (negative : Bool) (start t : Text) : Reading Value :=
  let (whole, rest) := match t with
    | .scalar '0' :: rest => (['0'], rest)
    | t => leadingDigits t
  if whole.isEmpty then stop .value start
  else
    let (decimals, rest) := readDecimals rest
    let (exponent, rest) := readExponent rest
    match numberOf negative whole decimals exponent with
    | .ok v => .ok (v, rest)
    | .error cause => stop cause start

/-! ## Values -/

def words : List (String × Value) := [
  ("null", .null), ("true", .bool true), ("false", .bool false), ("NaN", .float .nan),
  ("Infinity", .float (.infinite false)), ("-Infinity", .float (.infinite true))]

def readScalar (t : Text) : Reading Value :=
  match words.findSome? fun (w, v) => (Text.dropLead? w t).map fun rest => (v, rest) with
  | some found => .ok found
  | none =>
    match t with
    | .scalar '"' :: rest => (readString t rest).map fun (s, rest) => (.text s, rest)
    | .scalar '-' :: rest => readNumber true t rest
    | t => readNumber false t t

/-- Reads the key of an entry and the colon after it, up to the value. -/
def readKey (t : Text) : Except Stop (Text × Text) :=
  match t with
  | .scalar '"' :: rest => do
    let (key, rest) ← readString t rest
    match skipBlanks rest with
    | .scalar ':' :: rest => .ok (key, skipBlanks rest)
    | rest => stop .colon rest
  | t => stop .propertyName t

mutual

/-- Reads a value; every value inside another takes one of `depth`. -/
def readValue (depth : Nat) (t : Text) : Reading Value :=
  match depth, t with
  | d + 1, .scalar '{' :: rest =>
    match skipBlanks rest with
    | .scalar '}' :: rest => .ok (.map [], rest)
    | rest => (readEntries d rest).map fun (es, rest) => (.map (Value.ofEntries es), rest)
  | d + 1, .scalar '[' :: rest =>
    match skipBlanks rest with
    | .scalar ']' :: rest => .ok (.list [], rest)
    | rest => (readItems d rest).map fun (vs, rest) => (.list vs, rest)
  | _ + 1, t => readScalar t
  | 0, t => stop .value t

def readEntries (depth : Nat) (t : Text) : Except Stop (Entries × Text) :=
  match depth with
  | 0 => stop .value t
  | d + 1 => do
    let (key, rest) ← readKey t
    let (v, rest) ← readValue d rest
    match skipBlanks rest with
    | .scalar '}' :: rest => .ok ([(.text key, v)], rest)
    | .scalar ',' :: rest => do
      let (es, rest) ← readEntries d (skipBlanks rest)
      .ok ((.text key, v) :: es, rest)
    | rest => stop .comma rest

def readItems (depth : Nat) (t : Text) : Except Stop (List Value × Text) :=
  match depth with
  | 0 => stop .value t
  | d + 1 => do
    let (v, rest) ← readValue d t
    match skipBlanks rest with
    | .scalar ']' :: rest => .ok ([v], rest)
    | .scalar ',' :: rest => do
      let (vs, rest) ← readItems d (skipBlanks rest)
      .ok (v :: vs, rest)
    | rest => stop .comma rest

end

def lineFeeds (t : Text) : Nat := t.count (.scalar '\n')

def parse (t : Text) : Except Fault Value :=
  let fault (cause : Cause) (rest : Text) : Except Fault Value :=
    .error ⟨cause, lineFeeds t - lineFeeds rest + 1⟩
  match t with
  | .scalar '\uFEFF' :: _ => .error ⟨.byteOrderMark, 1⟩
  | t =>
    match readValue (2 * t.length + 2) (skipBlanks t) with
    | .error s => fault s.cause s.rest
    | .ok (v, rest) =>
      match skipBlanks rest with
      | [] => .ok v
      | rest => fault .extraData rest

end ApiRoutes.Json
