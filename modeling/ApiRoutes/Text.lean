/-!
# Text

A text is a list of code points.  Scripts and documents can spell code points that stand alone in
the surrogate range (`\ud800` in a string literal), so a text is more general than a `String`: the
texts that a file can hold are exactly those with `Text.toString?` defined
(`Text.toString?_ofString`).
-/
namespace ApiRoutes

/-- A Unicode code point: a scalar value, or one of the 2048 surrogates. -/
inductive CodePoint where
  | scalar (c : Char)
  /-- The surrogate `0xD800 + offset`. -/
  | surrogate (offset : Fin 0x800)
  deriving DecidableEq, Repr, Inhabited

namespace CodePoint

instance : Coe Char CodePoint := ⟨.scalar⟩

def val : CodePoint → Nat
  | .scalar c => c.toNat
  | .surrogate offset => 0xD800 + offset.val

/-- The code point of a number, when it is below `0x110000`. -/
def ofNat? (n : Nat) : Option CodePoint :=
  if h : n.isValidChar then some (.scalar (Char.ofNatAux n h))
  else if h : 0xD800 ≤ n ∧ n < 0xE000 then some (.surrogate ⟨n - 0xD800, by omega⟩)
  else none

def char? : CodePoint → Option Char
  | .scalar c => some c
  | .surrogate _ => none

instance : Ord CodePoint := ⟨fun a b => compare a.val b.val⟩

/-- Does the predicate hold of the character?  It never does of a surrogate. -/
def holds (p : Char → Bool) : CodePoint → Bool
  | .scalar c => p c
  | .surrogate _ => false

def mapChar (f : Char → Char) : CodePoint → CodePoint
  | .scalar c => .scalar (f c)
  | .surrogate offset => .surrogate offset

end CodePoint

abbrev Text := List CodePoint

namespace Text

def ofString (s : String) : Text := s.toList.map .scalar

def ofChars (cs : List Char) : Text := cs.map .scalar

instance : Coe String Text := ⟨ofString⟩

def toChars? (t : Text) : Option (List Char) := t.mapM CodePoint.char?

def toString? (t : Text) : Option String := t.toChars?.map String.ofList

theorem toChars?_ofChars (cs : List Char) : toChars? (ofChars cs) = some cs := by
  induction cs with
  | nil => rfl
  | cons c r ih =>
    simp only [toChars?, ofChars, List.map_cons, List.mapM_cons] at ih ⊢
    rw [ih]; rfl

/-- Every string is a text, and is read back from it. -/
theorem toString?_ofString (s : String) : toString? (ofString s) = some s := by
  have h := toChars?_ofChars s.toList
  simp only [toString?, ofString, ofChars] at h ⊢
  rw [h]; simp

/-! ## Searching and cutting -/

/-- `t` without a leading `p`, when it starts with `p`. -/
def dropLead? (p t : Text) : Option Text :=
  match p, t with
  | [], t => some t
  | _ :: _, [] => none
  | a :: p, b :: t => if a = b then dropLead? p t else none

/-- Does `t` start with `p`? -/
def startsWith (t p : Text) : Bool := (dropLead? p t).isSome

/-- Does `t` end with `p`? -/
def endsWith (t p : Text) : Bool := startsWith t.reverse p.reverse

/-- Does `p` occur in `t`? -/
def contains (t p : Text) : Bool :=
  match t with
  | [] => p.isEmpty
  | c :: r => startsWith (c :: r) p || contains r p

/-- The pieces of a text between the code points that satisfy `p`; there is always at least one. -/
def pieces (p : CodePoint → Bool) : Text → List Text
  | [] => [[]]
  | c :: r =>
    if p c then [] :: pieces p r
    else match pieces p r with
      | [] => [[c]]
      | l :: ls => (c :: l) :: ls

def splitAt (sep : CodePoint) (t : Text) : List Text := pieces (· == sep) t

/-- The lines of a text: the pieces between its line feeds. -/
def lines (t : Text) : List Text := splitAt '\n' t

/-- Texts put one after the other with `sep` between them. -/
def joinWith (sep : Text) : List Text → Text
  | [] => []
  | [t] => t
  | t :: u :: r => t ++ sep ++ joinWith sep (u :: r)

/-- The text before the first `sep`. -/
def before (sep : CodePoint) (t : Text) : Text := t.takeWhile (· != sep)

/-- A text without the code points that satisfy `p` at either end. -/
def trim (p : CodePoint → Bool) (t : Text) : Text := ((t.dropWhile p).reverse.dropWhile p).reverse

/-- Replaces the occurrences of a text from left to right, skipping `skip` code points first. -/
def replaceFrom (old new : Text) (skip : Nat) : Text → Text
  | [] => []
  | c :: r =>
    match skip with
    | n + 1 => replaceFrom old new n r
    | 0 =>
      if startsWith (c :: r) old then new ++ replaceFrom old new (old.length - 1) r
      else c :: replaceFrom old new 0 r

/-- Every occurrence of `old` replaced by `new`.  An empty `old` occurs between any two code points
and at both ends. -/
def replace (old new t : Text) : Text :=
  if old.isEmpty then new ++ t.flatMap (fun c => c :: new) else replaceFrom old new 0 t

/-! ## Letter case

Only ASCII letters are folded.  That is enough to compare with a word of ASCII letters other than
`k`: no other code point has such a letter as its small form. -/

def toLower (t : Text) : Text := t.map (CodePoint.mapChar Char.toLower)

def toUpper (t : Text) : Text := t.map (CodePoint.mapChar Char.toUpper)

/-! ## Numerals -/

def ofNat (n : Nat) : Text := ofChars (Nat.toDigits 10 n)

def ofInt (i : Int) : Text :=
  match i with
  | .ofNat n => ofNat n
  | .negSucc n => '-' :: ofNat (n + 1)

def padded (width : Nat) (digits : List Char) : Text :=
  ofChars (List.replicate (width - digits.length) '0' ++ digits)

/-- A number in at least `width` small hexadecimal digits. -/
def hex (width n : Nat) : Text := padded width (Nat.toDigits 16 n)

/-- A number in at least `width` decimal digits. -/
def decimal (width n : Nat) : Text := padded width (Nat.toDigits 10 n)

def hexDigit? (c : CodePoint) : Option Nat :=
  match c with
  | .scalar c =>
    if '0' ≤ c ∧ c ≤ '9' then some (c.toNat - 48)
    else if 'a' ≤ c ∧ c ≤ 'f' then some (c.toNat - 87)
    else if 'A' ≤ c ∧ c ≤ 'F' then some (c.toNat - 55)
    else none
  | .surrogate _ => none

def isHexDigit (c : CodePoint) : Bool := (hexDigit? c).isSome

def hexValue (ds : Text) : Nat := ds.foldl (fun n d => 16 * n + (hexDigit? d).getD 0) 0

/-! ## White space -/

/-- The characters that separate words: the separators and the control characters among the
white space of Unicode, with the four information separators. -/
def isSpace (c : CodePoint) : Bool :=
  c.holds fun c =>
    let n := c.toNat
    (0x09 ≤ n && n ≤ 0x0D) || (0x1C ≤ n && n ≤ 0x20) || n == 0x85 || n == 0xA0 || n == 0x1680 ||
    (0x2000 ≤ n && n ≤ 0x200A) || n == 0x2028 || n == 0x2029 || n == 0x202F || n == 0x205F ||
    n == 0x3000

def isBlank (t : Text) : Bool := t.all isSpace

/-- Blanks and tabs, the white space that indents a line. -/
def isIndent (c : CodePoint) : Bool := c == ' ' || c == '\t'

/-- `n` blanks. -/
def blanks (n : Nat) : Text := List.replicate n (.scalar ' ')

end Text

end ApiRoutes
