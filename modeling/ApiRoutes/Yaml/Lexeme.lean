import ApiRoutes.Text.Utf8
import ApiRoutes.Yaml.Token
/-!
# Directives, anchors and tags

The lexemes of a YAML text that are no scalars.  Each function starts at the mark of its lexeme and
gives the place after it.
-/
namespace ApiRoutes.Yaml

abbrev Scan (α : Type) := Except Fault (α × Cursor)

def isNameChar (c : Char) : Bool := c.isAlphanum || c == '-' || c == '_'

def isHex (c : Char) : Bool := Text.isHexDigit (.scalar c)

def hexNumber (ds : List Char) : Nat := Text.hexValue (Text.ofChars ds)

/-! ## Anchors -/

def scanName (context : String) (c : Cursor) : Except Fault (List Char × Cursor) := do
  let expected := "alphabetic or numeric character"
  let (name, after) := c.next.takeWhile isNameChar
  if name.isEmpty then after.unexpected context expected after.head?
  else if endsToken after.head? || after.meets (isOneOf "?:,]\x7d%@\x60") then return (name, after)
  else after.unexpected context expected after.head?

def scanAnchor (c : Cursor) : Except Fault (TokenKind × Cursor) := do
  let (name, after) ← scanName "while scanning an anchor" c
  return (.anchor name, after)

def scanAlias (c : Cursor) : Except Fault (TokenKind × Cursor) := do
  let (name, after) ← scanName "while scanning an alias" c
  return (.alias name, after)

/-! ## Tags -/

/-- Is this a character of tags, an escape apart? -/
def isTagChar (c : Char) : Bool := c.isAlphanum || isOneOf "-;/?:@&=+$,_.!~*'()[]" c

def scanEscapes (context : String) (fuel : Nat) (c : Cursor) :
    Except Fault (List UInt8 × Cursor) := do
  match fuel with
  | 0 => return ([], c)
  | n + 1 =>
    if !c.sees '%' then return ([], c)
    let c := c.next
    let ds := (c.rest.take 2).takeWhile isHex
    if ds.length < 2 then
      c.unexpected context "URI escape sequence of 2 hexadecimal numbers" (c.peek? ds.length)
    else
      let (bytes, after) ← scanEscapes context n (c.skip 2)
      return (UInt8.ofNat (hexNumber ds) :: bytes, after)

/-- Reads the characters of a tag.  `what` is what the tag is part of. -/
def scanUriFrom (what : String) (fuel : Nat) (c : Cursor) : Except Fault (List Char × Cursor) := do
  match fuel with
  | 0 => return ([], c)
  | n + 1 =>
    let (cs, after) := c.takeWhile isTagChar
    if !after.sees '%' then return (cs, after)
    let context := "while scanning a " ++ what
    let (bytes, rest) ← scanEscapes context after.rest.length after
    match String.fromUTF8? (ByteArray.mk bytes.toArray) with
    | none =>
      after.broken (some context)
        ("'utf-8' codec can't decode byte 0x" ++ Text.hex 2 (bytes.headD 0).toNat ++
          " in position 0: invalid start byte")
    | some s =>
      let (more, rest) ← scanUriFrom what n rest
      return (cs ++ s.toList ++ more, rest)

/-- Reads a tag, or the part of one after its handle. -/
def scanUri (what : String) (c : Cursor) : Except Fault (List Char × Cursor) := do
  let (cs, after) ← scanUriFrom what (c.rest.length + 1) c
  if cs.isEmpty && after.index == c.index then
    after.unexpected ("while parsing a " ++ what) "URI" after.head?
  else return (cs, after)

/-- Reads the handle of a tag: a mark alone, or a name between two. -/
def scanHandle (what : String) (c : Cursor) : Except Fault (List Char × Cursor) := do
  let context := "while scanning a " ++ what
  if !c.sees '!' then c.unexpected context "'!'" c.head?
  else if c.peek? 1 == some ' ' then return (['!'], c.next)
  else
    let (name, after) := c.next.takeWhile isNameChar
    if after.sees '!' then return ('!' :: name ++ ['!'], after.next)
    else after.unexpected context "'!'" after.head?

def scanTag (c : Cursor) : Except Fault (TokenKind × Cursor) := do
  let what := "tag"
  let (kind, after) ←
    if c.peek? 1 == some '<' then do
      let (suffix, after) ← scanUri what (c.skip 2)
      if after.sees '>' then pure (TokenKind.tag none suffix, after.next)
      else after.unexpected "while parsing a tag" "'>'" after.head?
    else if endsToken (c.peek? 1) then pure (TokenKind.tag none ['!'], c.next)
    else do
      let word := c.next.rest.takeWhile fun x => !endsWord (some x)
      let (handle, after) ← if word.contains '!' then scanHandle what c else pure (['!'], c.next)
      let (suffix, after) ← scanUri what after
      pure (TokenKind.tag (some handle) suffix, after)
  if endsWord after.head? then return (kind, after)
  else after.unexpected "while scanning a tag" "' '" after.head?

/-! ## Directives -/

def directiveContext : String := "while scanning a directive"

def scanNumber (c : Cursor) : Except Fault (Nat × Cursor) := do
  let (ds, after) := c.takeWhile Char.isDigit
  if ds.isEmpty then c.unexpected directiveContext "a digit" c.head?
  else return (ds.foldl (fun n d => 10 * n + (d.toNat - 48)) 0, after)

def scanVersion (c : Cursor) : Except Fault (Directive × Cursor) := do
  let (major, after) ← scanNumber c.skipBlanks
  if !after.sees '.' then after.unexpected directiveContext "a digit or '.'" after.head?
  else
    let (_, after) ← scanNumber after.next
    if endsWord after.head? then return (.version major, after)
    else after.unexpected directiveContext "a digit or ' '" after.head?

def scanTagDirective (c : Cursor) : Except Fault (Directive × Cursor) := do
  let (handle, after) ← scanHandle "directive" c.skipBlanks
  if !after.sees ' ' then after.unexpected directiveContext "' '" after.head?
  else
    let (lead, after) ← scanUri "directive" after.skipBlanks
    if endsWord after.head? then return (.tag handle lead, after)
    else after.unexpected directiveContext "' '" after.head?

def scanLineEnd (context : String) (c : Cursor) : Except Fault Cursor :=
  let after := c.skipBlanks.skipComment
  if endsLine after.head? then .ok after.takeBreak.2
  else after.unexpected context "a comment or a line break" after.head?

def scanDirective (c : Cursor) : Except Fault (TokenKind × Cursor) := do
  let expected := "alphabetic or numeric character"
  let (name, after) := c.next.takeWhile isNameChar
  if name.isEmpty || !endsWord after.head? then
    after.unexpected directiveContext expected after.head?
  else
    let (d, after) ←
      if name == "YAML".toList then scanVersion after
      else if name == "TAG".toList then scanTagDirective after
      else pure (Directive.other, after.skipLine)
    return (.directive d, ← scanLineEnd directiveContext after)

end ApiRoutes.Yaml
