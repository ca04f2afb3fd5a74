import ApiRoutes.Calendar
import ApiRoutes.Binary64.Spelling
import ApiRoutes.Text.Display
/-!
# Document values

The values that an API document or a manifest holds.  A mapping keeps the order of its entries, and
its keys are values too.  Two notions of equality are kept apart: `=` compares the whole value, and
`Value.sameValue` compares as lookups do, where a number is equal to every spelling of itself.
-/
namespace ApiRoutes

/-- A value of a document. -/
inductive Value where
  | null
  | bool (b : Bool)
  | int (i : Int)
  | float (x : Binary64)
  | text (t : Text)
  | date (d : Date)
  | dateTime (d : DateTime)
  | bytes (bs : List UInt8)
  | list (items : List Value)
  | map (entries : List (Value × Value))
  | set (items : List Value)
  deriving Inhabited

/-- The entries of a mapping, in order. -/
abbrev Entries := List (Value × Value)

namespace Value

instance : Coe Text Value := ⟨.text⟩
instance : Coe String Value := ⟨fun s => .text s⟩

/-! ## Equality -/

mutual

def beq : Value → Value → Bool
  | .null, .null => true
  | .bool a, .bool b => a == b
  | .int a, .int b => a == b
  | .float a, .float b => a == b
  | .text a, .text b => a == b
  | .date a, .date b => a == b
  | .dateTime a, .dateTime b => a == b
  | .bytes a, .bytes b => a == b
  | .list a, .list b => beqItems a b
  | .map a, .map b => beqEntries a b
  | .set a, .set b => beqItems a b
  | _, _ => false

def beqItems : List Value → List Value → Bool
  | [], [] => true
  | a :: as, b :: bs => beq a b && beqItems as bs
  | _, _ => false

def beqEntries : Entries → Entries → Bool
  | [], [] => true
  | (k, v) :: as, (k', v') :: bs => beq k k' && beq v v' && beqEntries as bs
  | _, _ => false

end

mutual

theorem beq_iff : ∀ a b : Value, beq a b = true ↔ a = b
  | .list as, b => by cases b <;> simp [beq, beqItems_iff]
  | .map as, b => by cases b <;> simp [beq, beqEntries_iff]
  | .set as, b => by cases b <;> simp [beq, beqItems_iff]
  | .null, b => by cases b <;> simp [beq]
  | .bool _, b => by cases b <;> simp [beq]
  | .int _, b => by cases b <;> simp [beq]
  | .float _, b => by cases b <;> simp [beq]
  | .text _, b => by cases b <;> simp [beq]
  | .date _, b => by cases b <;> simp [beq]
  | .dateTime _, b => by cases b <;> simp [beq]
  | .bytes _, b => by cases b <;> simp [beq]

theorem beqItems_iff : ∀ as bs : List Value, beqItems as bs = true ↔ as = bs
  | [], bs => by cases bs <;> simp [beqItems]
  | a :: as, [] => by simp [beqItems]
  | a :: as, b :: bs => by simp [beqItems, beq_iff a b, beqItems_iff as bs]

theorem beqEntries_iff : ∀ as bs : Entries, beqEntries as bs = true ↔ as = bs
  | [], bs => by cases bs <;> simp [beqEntries]
  | (k, v) :: as, [] => by simp [beqEntries]
  | (k, v) :: as, (k', v') :: bs => by
    simp [beqEntries, beq_iff k k', beq_iff v v', beqEntries_iff as bs]

end

instance : DecidableEq Value := fun a b => decidable_of_iff _ (beq_iff a b)

/-- The number of a value that is one; the truth values count as 1 and 0. -/
def number? : Value → Option (Int ⊕ Binary64)
  | .bool b => some (.inl (if b then 1 else 0))
  | .int i => some (.inl i)
  | .float x => some (.inr x)
  | _ => none

def sameNumber : Int ⊕ Binary64 → Int ⊕ Binary64 → Bool
  | .inl i, .inl j => i == j
  | .inl i, .inr x | .inr x, .inl i => x.toInt? == some i
  | .inr x, .inr y => x.sameValue y

mutual

/-- Equality as lookups see it: numbers by value whatever their kind, mappings and sets without
regard to order, moments by their instant. -/
def sameValue : Value → Value → Bool
  | .null, b => match b with | .null => true | _ => false
  | .bool a, b => (number? b).any (sameNumber (.inl (if a then 1 else 0)))
  | .int a, b => (number? b).any (sameNumber (.inl a))
  | .float a, b => (number? b).any (sameNumber (.inr a))
  | .text a, b => match b with | .text b => a == b | _ => false
  | .date a, b => match b with | .date b => a == b | _ => false
  | .dateTime a, b => match b with | .dateTime b => a.sameInstant b | _ => false
  | .bytes a, b => match b with | .bytes b => a == b | _ => false
  | .list as, b => match b with | .list bs => sameItems as bs | _ => false
  | .map as, b => match b with
    | .map bs => as.length == bs.length && sameEntries as bs
    | _ => false
  | .set as, b => match b with
    | .set bs => as.length == bs.length && sameMembers as bs
    | _ => false

/-- Equality of lists, item by item. -/
def sameItems : List Value → List Value → Bool
  | [], bs => bs.isEmpty
  | _ :: _, [] => false
  | a :: as, b :: bs => sameValue a b && sameItems as bs

def sameEntries : Entries → Entries → Bool
  | [], _ => true
  | (k, v) :: as, bs => bs.any (fun e => sameValue k e.1 && sameValue v e.2) && sameEntries as bs

def sameMembers : List Value → List Value → Bool
  | [], _ => true
  | a :: as, bs => bs.any (sameValue a) && sameMembers as bs

end

/-! ## Entries -/

def lookup? (key : Value) (entries : Entries) : Option Value :=
  (entries.find? fun e => sameValue e.1 key).map (·.2)

def hasKey (key : Value) (entries : Entries) : Bool := entries.any fun e => sameValue e.1 key

/-- Puts a value at a key: a new key goes to the end, an old one keeps its place. -/
def insert (key value : Value) (entries : Entries) : Entries :=
  if hasKey key entries then
    entries.map fun e => if sameValue e.1 key then (e.1, value) else e
  else entries ++ [(key, value)]

/-- The mapping that has all the entries, the last of equal keys winning. -/
def ofEntries (entries : Entries) : Entries := entries.foldl (fun m e => insert e.1 e.2 m) []

/-- Can the value be the key of a mapping?  Lists, mappings and sets cannot. -/
def canBeKey : Value → Bool
  | .list _ | .map _ | .set _ => false
  | _ => true

/-- Does a value count as present?  Nothing, zero and what is empty do not. -/
def isTruthy : Value → Bool
  | .null => false
  | .bool b => b
  | .int i => i != 0
  | .float x => !x.sameValue (Binary64.zero false)
  | .text t => !t.isEmpty
  | .bytes b => !b.isEmpty
  | .list xs | .set xs => !xs.isEmpty
  | .map es => !es.isEmpty
  | .date _ | .dateTime _ => true

/-! ## Kinds -/

def kindName : Value → String
  | .null => "NoneType"
  | .bool _ => "bool"
  | .int _ => "int"
  | .float _ => "float"
  | .text _ => "str"
  | .date _ => "date"
  | .dateTime _ => "datetime"
  | .bytes _ => "bytes"
  | .list _ => "list"
  | .map _ => "dict"
  | .set _ => "set"

/-! ## Values in messages -/

def displayBytes (bs : List UInt8) : Text :=
  let cs := bs.map fun b => Char.ofNat b.toNat
  let quote := if cs.contains '\'' && !cs.contains '"' then '"' else '\''
  let body := cs.flatMap fun c =>
    if c == '\\' then ['\\', '\\']
    else if c == quote then ['\\', quote]
    else if c == '\n' then ['\\', 'n']
    else if c == '\r' then ['\\', 'r']
    else if c == '\t' then ['\\', 't']
    else if c.toNat < 0x20 || 0x7F ≤ c.toNat then
      '\\' :: 'x' :: (if c.toNat < 16 then '0' :: Nat.toDigits 16 c.toNat else Nat.toDigits 16 c.toNat)
    else [c]
  Text.ofChars ('b' :: quote :: body ++ [quote])

def displayOffset (offset : Int) : Text :=
  let body : Text :=
    if offset = 0 then "utc"
    else
      let days : Int := if offset < 0 then -1 else 0
      let seconds := offset * 60 - days * 86400
      let dayPart : Text := if days = 0 then [] else "days=-1, "
      "timezone(datetime.timedelta(" ++ dayPart ++ "seconds=" ++ Text.ofInt seconds ++ "))"
  if offset = 0 then "datetime.timezone." ++ body else "datetime." ++ body

def displayDate (d : Date) : Text :=
  "datetime.date(" ++ Text.ofNat d.year ++ ", " ++ Text.ofNat d.month ++ ", " ++
    Text.ofNat d.day ++ ")"

def displayDateTime (d : DateTime) : Text :=
  let clock := [d.hour, d.minute] ++
    (if d.second = 0 ∧ d.microsecond = 0 then [] else [d.second]) ++
    (if d.microsecond = 0 then [] else [d.microsecond])
  let parts := [d.date.year, d.date.month, d.date.day] ++ clock
  let zone : Text := match d.offset with
    | none => []
    | some o => ", tzinfo=" ++ displayOffset o
  "datetime.datetime(" ++ Text.joinWith ", " (parts.map Text.ofNat) ++ zone ++ ")"

mutual

def display : Value → Text
  | .null => "None"
  | .bool b => if b then "True" else "False"
  | .int i => Text.ofInt i
  | .float x => x.text .plain
  | .text t => t.display
  | .date d => displayDate d
  | .dateTime d => displayDateTime d
  | .bytes bs => displayBytes bs
  | .list xs => "[" ++ Text.joinWith ", " (displayItems xs) ++ "]"
  | .map es => "\x7b" ++ Text.joinWith ", " (displayEntries es) ++ "\x7d"
  | .set xs => if xs.isEmpty then "set()" else "\x7b" ++ Text.joinWith ", " (displayItems xs) ++ "\x7d"

def displayItems : List Value → List Text
  | [] => []
  | x :: xs => display x :: displayItems xs

def displayEntries : Entries → List Text
  | [] => []
  | (k, v) :: r => (display k ++ ": " ++ display v) :: displayEntries r

end

/-- A value as a word of its own: like `display`, but a text, date or moment stands as it is. -/
def plain : Value → Text
  | .text t => t
  | .date d => d.isoText
  | .dateTime d => d.isoText ' '
  | v => display v

end Value

end ApiRoutes
