import ApiRoutes.Text
import ApiRoutes.Text.Unprintable
/-!
# Texts in messages

A message shows a text between quotes, on one line and with every invisible code point spelled out
(`Text.display`).
-/
namespace ApiRoutes.Text

/-- A text is shown between apostrophes, unless it holds some and no quotation mark. -/
def displayQuote (t : Text) : Char :=
  if t.any (· == '\'') && !t.any (· == '"') then '"' else '\''

def escapeNumber (n : Nat) : Text :=
  if n < 0x100 then "\\x" ++ hex 2 n
  else if n < 0x10000 then "\\u" ++ hex 4 n
  else "\\U" ++ hex 8 n

/-- How one code point is shown between the quotes `quote`. -/
def displayCodePoint (quote : Char) (c : CodePoint) : Text :=
  if c = .scalar '\\' then "\\\\"
  else if c = .scalar quote then ['\\', .scalar quote]
  else if c = .scalar '\n' then "\\n"
  else if c = .scalar '\r' then "\\r"
  else if c = .scalar '\t' then "\\t"
  else if isUnprintable c.val then escapeNumber c.val
  else [c]

def display (t : Text) : Text :=
  let quote := displayQuote t
  .scalar quote :: t.flatMap (displayCodePoint quote) ++ [.scalar quote]

end ApiRoutes.Text
