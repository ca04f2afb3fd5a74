import ApiRoutes.Text
/-!
# String literals

A string literal of a script, written between apostrophes (`quote`) and read back (`unquote`).  The
writer spells every code point on its own; the reader knows more spellings than the writer uses: an
escape by number in three forms, an escape by letter, and a line continuation.
-/
namespace ApiRoutes.Script

/-! ## Writing -/

def quoteCodePoint (c : CodePoint) : Text :=
  match c with
  | '\\' => "\\\\"
  | '\'' => "\\'"
  | '\n' => "\\n"
  | '\r' => "\\r"
  | '\t' => "\\t"
  | '\x08' => "\\b"
  | '\x0c' => "\\f"
  | '\x0b' => "\\v"
  | '\x00' => "\\0"
  | '\u2028' => "\\u2028"
  | '\u2029' => "\\u2029"
  | c => if c.val < 0x20 then "\\u" ++ Text.hex 4 c.val else [c]

def quote (t : Text) : Text := "'" ++ t.flatMap quoteCodePoint ++ "'"

/-! ## Reading -/

/-- Why an escape by number names no code point. -/
inductive EscapeFault where
  /-- The number is no code point. -/
  | notACodePoint
  /-- The number does not even fit 31 bits. -/
  | tooLarge
  deriving DecidableEq, Repr

def EscapeFault.message : EscapeFault → String
  | .notACodePoint => "chr() arg not in range(0x110000)"
  | .tooLarge => "number out of range"

/-- The number of an escape by number and the text after it; the argument starts after the
backslash. -/
def numberEscape? : Text → Option (Nat × Text)
  | .scalar 'u' :: .scalar '{' :: r =>
    match r.takeWhile Text.isHexDigit, r.dropWhile Text.isHexDigit with
    | d :: ds, .scalar '}' :: rest => some (Text.hexValue (d :: ds), rest)
    | _, _ => none
  | .scalar 'u' :: a :: b :: c :: d :: rest =>
    if [a, b, c, d].all Text.isHexDigit then some (Text.hexValue [a, b, c, d], rest) else none
  | .scalar 'x' :: a :: b :: rest =>
    if [a, b].all Text.isHexDigit then some (Text.hexValue [a, b], rest) else none
  | _ => none

theorem numberEscape?_length {t rest : Text} {n : Nat} (h : numberEscape? t = some (n, rest)) :
    rest.length < t.length := by
  fun_cases numberEscape? t with
  | case1 r d ds rest' hrest hds =>
    have : (r.dropWhile Text.isHexDigit).length ≤ r.length := (List.dropWhile_sublist _).length_le
    rw [hrest] at this
    simp [numberEscape?, hds, hrest] at h
    simp [← h.2] at this ⊢; omega
  | case2 => simp_all [numberEscape?]
  | case3 => simp_all [numberEscape?]; omega
  | case4 => simp_all [numberEscape?]
  | case5 => simp_all [numberEscape?]; omega
  | case6 => simp_all [numberEscape?]
  | case7 => simp_all [numberEscape?]

/-- The code point that a letter stands for after a backslash; most stand for themselves. -/
def letterEscape (c : CodePoint) : CodePoint :=
  match c with
  | 'n' => '\n'
  | 't' => '\t'
  | 'r' => '\r'
  | 'b' => '\x08'
  | 'f' => '\x0c'
  | 'v' => '\x0b'
  | '0' => '\x00'
  | c => c

def codePointOf (n : Nat) : Except EscapeFault CodePoint :=
  match CodePoint.ofNat? n with
  | some c => .ok c
  | none => .error (if n < 0x80000000 then .notACodePoint else .tooLarge)

def unescape (t : Text) : Except EscapeFault Text :=
  match t with
  | [] => .ok []
  | .scalar '\\' :: r =>
    match _h : numberEscape? r, _hr : r with
    | some (n, rest), _ => do
      let c ← codePointOf n
      let t ← unescape rest
      return c :: t
    | none, [] => .ok []
    | none, .scalar '\n' :: r => unescape r
    | none, c :: r => (unescape r).map (letterEscape c :: ·)
  | c :: r => (unescape r).map (c :: ·)
termination_by t.length
decreasing_by
  · have := numberEscape?_length _h
    simp only [← _hr, List.length_cons]
    omega
  all_goals simp only [List.length_cons]; omega

/-- The text that a literal spells: its first and last code points are the quotes. -/
def unquote (literal : Text) : Except EscapeFault Text := unescape (literal.drop 1).dropLast

end ApiRoutes.Script
