import ApiRoutes.Base64
import ApiRoutes.Value
import ApiRoutes.Yaml.Tag
/-!
# The values of scalars

The value that a scalar with a tag stands for (`Tag.scalarValue`).
-/
namespace ApiRoutes.Yaml

/-- Why a scalar has no value: a fault of its own, or a problem that is reported with its place. -/
inductive NoValue where
  | fault (f : ScalarFault)
  | problem (text : Text)

/-! ## Numbers -/

def trimmed (cs : List Char) : List Char :=
  let isSpace (c : Char) := Text.isSpace (.scalar c)
  ((cs.dropWhile isSpace).reverse.dropWhile isSpace).reverse

def digitsIn? (base : Nat) (ds : List Char) : Option Nat :=
  if ds.isEmpty || (base == 10 && 4300 < ds.length) then none
  else ds.foldlM (fun n c =>
    match Text.hexDigit? (.scalar c) with
    | some d => if d < base then some (base * n + d) else none
    | none => none) 0

def dropBase (base : Nat) (cs : List Char) : List Char :=
  match cs with
  | '0' :: c :: ds =>
    let c := c.toLower
    if (base == 2 && c == 'b') || (base == 8 && c == 'o') || (base == 16 && c == 'x') then ds else cs
  | cs => cs

/-- The whole number of digits to a base, which may have a sign. -/
def wholeNumber (base : Nat) (cs : List Char) : Except ScalarFault Int :=
  let cs := trimmed cs
  match digitsIn? base (dropBase base (Tag.dropSign cs)) with
  | some n => .ok (if cs.head? == some '-' then -n else n)
  | none => .error .noNumber

/-- The whole number that a scalar spells; underscores do not count. -/
def integerOf (cs : List Char) : Except ScalarFault Int := do
  let cs := cs.filter (· != '_')
  let n ← match Tag.dropSign cs with
    | [] => .error .noDigits
    | ['0'] => pure 0
    | '0' :: 'b' :: ds => wholeNumber 2 ds
    | '0' :: 'x' :: ds => wholeNumber 16 ds
    | '0' :: ds => wholeNumber 8 ('0' :: ds)
    | ds => do
      let parts ← (Tag.colonParts ds).mapM (wholeNumber 10)
      pure (parts.foldl (fun n d => 60 * n + d) 0)
  return if cs.head? == some '-' then -n else n

def decimalOf (cs : List Char) : Except ScalarFault Binary64 :=
  match Binary64.ofChars? (trimmed cs) with
  | some x => .ok x
  | none => .error .noNumber

/-- The sum of digits to base sixty, the last one first, from a weight on. -/
def sixtieths (weight : Nat) (sum : Binary64) : List Binary64 → Binary64
  | [] => sum
  | d :: ds => sixtieths (60 * weight) (sum.add (d.mul (Binary64.ofInt weight))) ds

/-- The number with a point that a scalar spells; underscores and case do not count. -/
def floatOf (cs : List Char) : Except ScalarFault Binary64 := do
  let cs := (cs.filter (· != '_')).map Char.toLower
  let unsigned := Tag.dropSign cs
  let x ←
    if cs.isEmpty then .error .noDigits
    else if unsigned == ".inf".toList then pure (.infinite false)
    else if unsigned == ".nan".toList then pure .nan
    else match Tag.colonParts unsigned with
      | [_] => decimalOf unsigned
      | parts => do pure (sixtieths 1 (Binary64.zero false) (← parts.mapM decimalOf).reverse)
  return if cs.head? == some '-' then x.neg else x

/-! ## Other values -/

/-- The truth value that a word means. -/
def truthOf (t : Text) : Except ScalarFault Bool :=
  let word := Text.toLower t
  if ["yes", "true", "on"].any fun (w : String) => word == w then .ok true
  else if ["no", "false", "off"].any fun (w : String) => word == w then .ok false
  else .error .noTruth

def momentOf (cs : List Char) : Except ScalarFault Value :=
  match Moment.ofChars? cs with
  | none => .error .noMoment
  | some m => match m.value? with
    | some (.inl d) => .ok (.date d)
    | some (.inr d) => .ok (.dateTime d)
    | none => .error .impossibleMoment

/-- A character that is not ASCII as a message shows it. -/
def escaped (c : CodePoint) : Text :=
  if c.val < 0x100 then "\\x" ++ Text.hex 2 c.val
  else if c.val < 0x10000 then "\\u" ++ Text.hex 4 c.val
  else "\\U" ++ Text.hex 8 c.val

def notAsciiProblem (t : Text) : Text :=
  let isAscii (c : CodePoint) : Bool := c.val < 0x80
  let start := (t.takeWhile isAscii).length
  let run := (t.dropWhile isAscii).takeWhile (!isAscii ·)
  let what : Text := match run with
    | [c] => " '" ++ escaped c ++ "' in position " ++ Text.ofNat start
    | run => "s in position " ++ Text.ofNat start ++ "-" ++ Text.ofNat (start + run.length - 1)
  "failed to convert base64 data into ascii: 'ascii' codec can't encode character" ++ what ++
    ": ordinal not in range(128)"

def bytesOf (t : Text) : Except NoValue Value :=
  match t.mapM CodePoint.char? with
  | some cs =>
    if cs.all (·.toNat < 0x80) then
      match Base64.decode cs with
      | .ok bs => .ok (.bytes bs)
      | .error f => .error (.problem ("failed to decode base64 data: " ++ f.message))
    else .error (.problem (notAsciiProblem t))
  | none => .error (.problem (notAsciiProblem t))

/-- The characters of a text; surrogates become characters that no number and no moment has. -/
def charsOf (t : Text) : List Char := t.map fun c => (c.char?).getD '\uFFFD'

/-- The value of a scalar with a tag.  Other tags than these have none. -/
def Tag.scalarValue (tag : Tag) (t : Text) : Except NoValue Value :=
  let cs := charsOf t
  match tag with
  | .text => .ok (.text t)
  | .null => .ok .null
  | .bool => ((truthOf t).map Value.bool).mapError .fault
  | .int => ((integerOf cs).map Value.int).mapError .fault
  | .float => ((floatOf cs).map Value.float).mapError .fault
  | .timestamp => (momentOf cs).mapError .fault
  | .binary => bytesOf t
  | tag => .error (.problem ("could not determine a constructor for the tag " ++ tag.uri.display))

end ApiRoutes.Yaml
