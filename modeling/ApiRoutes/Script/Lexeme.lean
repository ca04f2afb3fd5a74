import ApiRoutes.Script.Trivia
import ApiRoutes.Script.Quoted
/-!
# Lexemes

How far the word, sign, number, string or pattern reaches that starts a list of characters.
-/
namespace ApiRoutes.Script

def isHex (c : Char) : Bool := Text.isHexDigit (.scalar c)

/-! ## Words -/

def isWordPart (c : Char) : Bool :=
  0x1F < c.toNat && !isGap c && !(":;`\"'@#.,|^&<=>+-*/\\%?!~()[]\x7b\x7d".toList.contains c)

def wordEscapeLength? : List Char → Option Nat
  | '\\' :: 'u' :: '{' :: rest =>
    let n := (rest.takeWhile isHex).length
    if n ≠ 0 ∧ (rest.drop n).head? = some '}' then some (n + 4) else none
  | '\\' :: 'u' :: a :: b :: c :: d :: _ => if [a, b, c, d].all isHex then some 6 else none
  | _ => none

def wordRun : Nat → List Char → Nat
  | 0, _ => 0
  | _ + 1, [] => 0
  | fuel + 1, c :: rest =>
    if isWordPart c then wordRun fuel rest + 1
    else match wordEscapeLength? (c :: rest) with
      | some n => n + wordRun fuel ((c :: rest).drop n)
      | none => 0

/-- How long the word is that starts here; zero when none does. -/
def wordLength (cs : List Char) : Nat :=
  if cs.head?.any Char.isDigit then 0 else wordRun cs.length cs

def wordAt (cs : List Char) : String := String.ofList (cs.take (wordLength cs))

def keywords : List String := [
  "break", "case", "catch", "class", "const", "continue", "debugger", "default", "delete", "do",
  "else", "export", "extends", "false", "finally", "for", "function", "if", "import", "in",
  "instanceof", "new", "null", "return", "super", "switch", "this", "throw", "true", "try",
  "typeof", "var", "void", "while", "with"]

def isNameWord (w : String) : Bool := !w.isEmpty && !keywords.contains w

/-! ## Signs -/

/-- The signs of the grammar, the longer of two with the same start first. -/
def signs : List String := [
  ">>>=", "...", "===", "!==", "**=", "<<=", ">>=", ">>>", "&&=", "||=", "??=",
  "=>", "==", "!=", "<=", ">=", "&&", "||", "??", "?.", "++", "--", "+=", "-=", "*=", "/=", "%=",
  "&=", "|=", "^=", "<<", ">>", "**",
  "\x7b", "\x7d", "(", ")", "[", "]", ";", ",", "<", ">", "+", "-", "*", "/", "%", "&", "|", "^",
  "!", "~", "?", ":", "=", ".", "@", "#"]

/-- The sign that starts here, empty when none does.  A question mark before a fraction stands
alone. -/
def signAt (cs : List Char) : String :=
  match cs with
  | '?' :: '.' :: c :: _ => if c.isDigit then "?" else "?."
  | cs => (signs.find? fun s => s.toList.isPrefixOf cs).getD ""

/-! ## Numbers -/

/-- How far a run of digits reaches in which single underscores may stand. -/
def digitRun (p : Char → Bool) : List Char → Nat
  | [] => 0
  | [c] => if p c then 1 else 0
  | c :: d :: rest =>
    if p c then
      if d == '_' && rest.head?.any p then digitRun p rest + 2 else digitRun p (d :: rest) + 1
    else 0

/-- How long the exponent is that starts here; zero when none does. -/
def exponentLength : List Char → Nat
  | c :: rest =>
    if c == 'e' || c == 'E' then
      let sign := if rest.head? == some '+' || rest.head? == some '-' then 1 else 0
      let n := digitRun Char.isDigit (rest.drop sign)
      if n = 0 then 0 else 1 + sign + n
    else 0
  | [] => 0

/-- How long the number in another base is that starts here; zero when none does. -/
def basedLength : List Char → Nat
  | '0' :: b :: rest =>
    let n :=
      if b == 'x' || b == 'X' then digitRun isHex rest
      else if b == 'b' || b == 'B' then digitRun (fun c => c == '0' || c == '1') rest
      else if b == 'o' || b == 'O' then digitRun (fun c => '0' ≤ c && c ≤ '7') rest
      else 0
    if n = 0 then 0 else n + 2
  | _ => 0

/-- How long the fraction is that starts with a point here, with its exponent; zero when none
does. -/
def fractionLength (digitsRequired : Bool) : List Char → Nat
  | '.' :: rest =>
    let n := digitRun Char.isDigit rest
    if digitsRequired && n == 0 then 0 else 1 + n + exponentLength (rest.drop n)
  | _ => 0

/-- How long the number is that starts here; zero when none does. -/
def numberLength (cs : List Char) : Nat :=
  let based := basedLength cs
  if based ≠ 0 then if (cs.drop based).head? = some 'n' then based + 1 else based
  else
    let digits := digitRun Char.isDigit cs
    if digits = 0 then fractionLength true cs
    else
      let whole :=
        match cs with
        | '0' :: c :: _ => if '1' ≤ c ∧ c ≤ '9' then digits else 1
        | _ => digits
      let rest := cs.drop whole
      let tail := if rest.head? = some '.' then fractionLength false rest else exponentLength rest
      let plain := if (cs.drop digits).head? = some 'n' then digits + 1 else digits
      if tail = 0 then plain else max plain (whole + tail)

/-! ## Strings -/

/-- How long the escape is whose backslash is read; `none` when it is no escape. -/
def escapeLength? : List Char → Option Nat
  | [] => none
  | 'x' :: rest => if (rest.take 2).length = 2 ∧ (rest.take 2).all isHex then some 3 else none
  | 'u' :: rest => (wordEscapeLength? ('\\' :: 'u' :: rest)).map (· - 1)
  | c :: rest =>
    if '0' ≤ c ∧ c ≤ '7' then
      some (((c :: rest).take 3).takeWhile fun d => '0' ≤ d && d ≤ '7').length
    else if (c = '\r' ∨ c = '?') ∧ rest.head?.any isBreak then some 2
    else some 1

/-- How far a string reaches whose opening quote is read, the closing one included. -/
def stringRun (quote : Char) : Nat → List Char → Option Nat
  | 0, _ => none
  | _ + 1, [] => none
  | fuel + 1, c :: rest =>
    if c == quote then some 1
    else if c == '\n' || c == '\r' then none
    else if c == '\\' then
      match escapeLength? rest with
      | some n => (stringRun quote fuel (rest.drop n)).map (· + n + 1)
      | none => none
    else (stringRun quote fuel rest).map (· + 1)

def stringLength? : List Char → Option Nat
  | c :: rest =>
    if c == '\'' || c == '"' then (stringRun c (rest.length + 1) rest).map (· + 1) else none
  | [] => none

/-! ## Patterns -/

/-- How far a class of characters in a pattern reaches, its closing bracket included. -/
def classRun : List Char → Option Nat
  | [] => none
  | ']' :: _ => some 1
  | '\n' :: _ => none
  | ['\\'] => none
  | '\\' :: c :: rest => if c == '\n' then none else (classRun rest).map (· + 2)
  | _ :: rest => (classRun rest).map (· + 1)

/-- How far a pattern reaches whose opening slash is read, the closing one included. -/
def patternRun : Nat → List Char → Option Nat
  | 0, _ => none
  | _ + 1, [] => none
  | fuel + 1, c :: rest =>
    if c == '/' then some 1
    else if c == '\n' then none
    else if c == '[' then
      match classRun rest with
      | some n => (patternRun fuel (rest.drop n)).map (· + n + 1)
      | none => none
    else if c == '\\' then
      match rest with
      | d :: rest => if d == '\n' then none else (patternRun fuel rest).map (· + 2)
      | [] => none
    else (patternRun fuel rest).map (· + 1)

/-- How long the regular expression is that starts here, its flags included. -/
def regexLength? : List Char → Option Nat
  | '/' :: c :: rest =>
    if c == '/' || c == '*' then none
    else (patternRun (rest.length + 2) (c :: rest)).map fun n =>
      1 + n + (((c :: rest).drop n).takeWhile fun d => 'a' ≤ d && d ≤ 'z').length
  | _ => none

/-! ## Templates -/

/-- How long the run of plain characters is that starts here in a template. -/
def templateRun : List Char → Nat
  | '\x60' :: _ | '\\' :: _ => 0
  | '$' :: '{' :: _ => 0
  | _ :: rest => templateRun rest + 1
  | [] => 0

end ApiRoutes.Script
