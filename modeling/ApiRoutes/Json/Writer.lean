import ApiRoutes.Value
/-!
# Writing JSON

`Json.render` writes a value over several lines, four blanks for each level, in ASCII characters
only.  Keys other than texts are written as the word for them.
-/
namespace ApiRoutes.Json

def unitEscape (n : Nat) : Text := "\\u" ++ Text.hex 4 n

/-- A code point in a string.  Beyond sixteen bits it becomes the two halves of its character. -/
def escapeCodePoint (c : CodePoint) : Text :=
  match c with
  | '"' => "\\\""
  | '\\' => "\\\\"
  | '\n' => "\\n"
  | '\r' => "\\r"
  | '\t' => "\\t"
  | '\x08' => "\\b"
  | '\x0c' => "\\f"
  | c =>
    let n := c.val
    if 0x20 ≤ n ∧ n < 0x7F then [c]
    else if n < 0x10000 then unitEscape n
    else unitEscape (0xD800 + (n - 0x10000) / 0x400) ++ unitEscape (0xDC00 + (n - 0x10000) % 0x400)

def renderText (t : Text) : Text := "\"" ++ t.flatMap escapeCodePoint ++ "\""

def numberSpelling : Binary64.Spelling := ⟨"Infinity", "-Infinity", "NaN", false⟩

def keyText : Value → Text
  | .null => "null"
  | .bool b => if b then "true" else "false"
  | .float x => x.text numberSpelling
  | k => k.plain

def lineBreak (level : Nat) : Text := "\n" ++ Text.blanks (4 * level)

/-- Items between brackets, each on a line of its own. -/
def bracketed (opening closing : Text) (level : Nat) (items : List Text) : Text :=
  if items.isEmpty then opening ++ closing
  else
    opening ++ lineBreak (level + 1) ++ Text.joinWith ("," ++ lineBreak (level + 1)) items ++
      lineBreak level ++ closing

mutual

def renderAt (level : Nat) : Value → Text
  | .map entries => bracketed "\x7b" "\x7d" level (renderEntries (level + 1) entries)
  | .list items => bracketed "[" "]" level (renderItems (level + 1) items)
  | .set items => bracketed "[" "]" level (renderItems (level + 1) items)
  | .null => "null"
  | .bool b => if b then "true" else "false"
  | .int i => Text.ofInt i
  | .float x => x.text numberSpelling
  | .text t => renderText t
  | .date d => renderText d.isoText
  | .dateTime d => renderText (d.isoText 'T')
  | .bytes bs => renderText (Value.displayBytes bs)

def renderItems (level : Nat) : List Value → List Text
  | [] => []
  | v :: rest => renderAt level v :: renderItems level rest

def renderEntries (level : Nat) : Entries → List Text
  | [] => []
  | (k, v) :: rest =>
    (renderText (keyText k) ++ ": " ++ renderAt level v) :: renderEntries level rest

end

def render (v : Value) : Text := renderAt 0 v

end ApiRoutes.Json
