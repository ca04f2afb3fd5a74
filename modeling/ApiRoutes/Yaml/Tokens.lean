import ApiRoutes.Yaml.Scalar.Block
import ApiRoutes.Yaml.Scalar.Flow
/-!
# The tokens of a text

`Tokens.ofChars` cuts a text into tokens.  The indentation of lines becomes tokens that open and
close blocks.  A key needs no mark of its own when it stands on one line with the colon after it, so
every token that could be such a key stays pending until that is known; where the text is broken,
the tokens that are still pending are not among the result.
-/
namespace ApiRoutes.Yaml

/-- A place where a key without a mark could start. -/
structure PossibleKey where
  /-- The depth of flow collections around it. -/
  depth : Nat
  /-- How many tokens precede it. -/
  position : Nat
  /-- A block mapping goes on here, so it has to be a key. -/
  isRequired : Bool
  place : Cursor

/-- What is known between two tokens. -/
structure Scanner where
  place : Cursor
  /-- How many characters the text has. -/
  size : Nat
  /-- The tokens that stand fast, the last one first, and how many they are. -/
  settled : List Token := []
  settledCount : Nat := 0
  /-- The tokens after them, in order. -/
  pending : List Token := []
  /-- The depth of flow collections. -/
  depth : Nat := 0
  /-- The column of the innermost block, and those of the blocks around it. -/
  indent : Int := -1
  indents : List Int := []
  /-- May a key without a mark start here? -/
  allowsKey : Bool := true
  keys : List PossibleKey := []
  isDone : Bool := false

namespace Scanner

def maxKeyLength : Nat := 1024

/-! ## Tokens -/

def count (s : Scanner) : Nat := s.settledCount + s.pending.length

def push (kind : TokenKind) (line : Nat) (s : Scanner) : Scanner :=
  { s with pending := s.pending ++ [⟨kind, line⟩] }

def insertAt (position : Nat) (kind : TokenKind) (line : Nat) (s : Scanner) : Scanner :=
  { s with pending := s.pending.insertIdx (position - s.settledCount) ⟨kind, line⟩ }

/-- Settles the tokens before the first that could be a key. -/
def settle (s : Scanner) : Scanner :=
  let n := match s.keys.map (·.position) with
    | [] => s.pending.length
    | p :: ps => min (ps.foldl min p - s.settledCount) s.pending.length
  { s with
    settled := (s.pending.take n).reverse ++ s.settled
    settledCount := s.settledCount + n
    pending := s.pending.drop n }

/-! ## Possible keys -/

/-- What could be a key is none; that is a fault where there has to be one. -/
def giveUp (k : PossibleKey) (c : Cursor) : Except Fault Unit :=
  if k.isRequired then c.broken (some "while scanning a simple key") "could not find expected ':'"
  else .ok ()

/-- Gives up the possible keys that are too far away or on another line. -/
def dropStale (s : Scanner) : Except Fault Scanner := do
  let isStale (k : PossibleKey) :=
    k.place.line != s.place.line || maxKeyLength < s.place.index - k.place.index
  (s.keys.filter isStale).forM fun k => giveUp k s.place
  return { s with keys := s.keys.filter (!isStale ·) }

def dropKey (s : Scanner) : Except Fault Scanner := do
  (s.keys.filter (·.depth == s.depth)).forM fun k => giveUp k s.place
  return { s with keys := s.keys.filter (·.depth != s.depth) }

/-- Notes that a key could start here. -/
def noteKey (s : Scanner) : Except Fault Scanner := do
  if s.allowsKey then
    let s ← dropKey s
    let key : PossibleKey := ⟨s.depth, s.count, s.depth == 0 && s.indent == s.place.column, s.place⟩
    return { s with keys := s.keys ++ [key] }
  else return s

/-! ## Indentation -/

/-- Closes the blocks that are indented further than a column. -/
def closeBlocks (column : Int) (s : Scanner) : List Int → Scanner
  | [] => s
  | outer :: rest =>
    if s.depth == 0 && column < s.indent then
      closeBlocks column { s.push .blockEnd s.place.line with indent := outer, indents := rest } rest
    else s

/-- Closes the blocks that end before a column. -/
def unwind (column : Int) (s : Scanner) : Scanner := closeBlocks column s s.indents

/-- Opens a block at a column, when it is indented further than the block around it. -/
def openBlock (column : Nat) (add : Scanner → Scanner) (s : Scanner) : Scanner :=
  if s.indent < column then
    add { s with indents := s.indent :: s.indents, indent := column }
  else s

/-! ## Single tokens -/

/-- Takes a token of `n` characters. -/
def take (n : Nat) (kind : TokenKind) (s : Scanner) : Scanner :=
  { s.push kind s.place.line with place := s.place.skip n }

def takeScanned (scan : Cursor → Except Fault (TokenKind × Cursor)) (s : Scanner) :
    Except Fault Scanner := do
  let (kind, after) ← scan s.place
  return { s.push kind s.place.line with place := after }

def takeEnd (s : Scanner) : Except Fault Scanner := do
  let s ← dropKey (s.unwind (-1))
  return { s.take 0 .streamEnd with allowsKey := false, keys := [], isDone := true }

def takeDirective (s : Scanner) : Except Fault Scanner := do
  let s ← dropKey (s.unwind (-1))
  takeScanned scanDirective { s with allowsKey := false }

def takeDocumentMark (kind : TokenKind) (s : Scanner) : Except Fault Scanner := do
  let s ← dropKey (s.unwind (-1))
  return { s.take 3 kind with allowsKey := false }

def takeOpening (kind : TokenKind) (s : Scanner) : Except Fault Scanner := do
  let s ← noteKey s
  return { s.take 1 kind with depth := s.depth + 1, allowsKey := true }

def takeClosing (kind : TokenKind) (s : Scanner) : Except Fault Scanner := do
  let s ← dropKey s
  return { s.take 1 kind with depth := s.depth - 1, allowsKey := false }

def takeFlowEntry (s : Scanner) : Except Fault Scanner := do
  let s ← dropKey { s with allowsKey := true }
  return s.take 1 .flowEntry

def takeBlockEntry (s : Scanner) : Except Fault Scanner := do
  if s.depth == 0 && !s.allowsKey then
    s.place.broken none "sequence entries are not allowed here"
  else
    let opened :=
      if s.depth == 0 then s.openBlock s.place.column (push .blockSequenceStart s.place.line) else s
    let s ← dropKey { opened with allowsKey := true }
    return s.take 1 .blockEntry

def takeKey (s : Scanner) : Except Fault Scanner := do
  if s.depth == 0 && !s.allowsKey then
    s.place.broken none "mapping keys are not allowed here"
  else
    let opened :=
      if s.depth == 0 then s.openBlock s.place.column (push .blockMappingStart s.place.line) else s
    let s ← dropKey { opened with allowsKey := s.depth == 0 }
    return s.take 1 .key

/-- The colon before a value.  It makes a key of what could be one; otherwise a value without a
key, or with one that has a mark, starts here. -/
def takeValue (s : Scanner) : Except Fault Scanner := do
  match s.keys.find? (·.depth == s.depth) with
  | some k =>
    let s := { s with keys := s.keys.filter (·.depth != s.depth), allowsKey := false }
    let s := s.insertAt k.position .key k.place.line
    let s :=
      if s.depth == 0 then
        s.openBlock k.place.column (insertAt k.position .blockMappingStart k.place.line)
      else s
    return s.take 1 .value
  | none =>
    if s.depth == 0 && !s.allowsKey then
      s.place.broken none "mapping values are not allowed here"
    else
      let opened :=
        if s.depth == 0 then s.openBlock s.place.column (push .blockMappingStart s.place.line) else s
      let s ← dropKey { opened with allowsKey := s.depth == 0 }
      return s.take 1 .value

/-- An anchor, alias, tag or quoted scalar, which can all start a key. -/
def takeKeyLike (scan : Cursor → Except Fault (TokenKind × Cursor)) (s : Scanner) :
    Except Fault Scanner := do
  let s ← noteKey s
  takeScanned scan { s with allowsKey := false }

def scanQuoted (double : Bool) (fuel : Nat) (c : Cursor) : Except Fault (TokenKind × Cursor) := do
  let (t, after) ← Quoted.scanFrom double fuel c.next
  return (.scalar t (if double then .doubleQuoted else .singleQuoted), after)

def takeBlockScalar (isFolded : Bool) (s : Scanner) : Except Fault Scanner := do
  let s ← dropKey { s with allowsKey := true }
  takeScanned (Block.scan isFolded s.indent (s.size + 1)) s

def takePlain (s : Scanner) : Except Fault Scanner := do
  let s ← noteKey s
  let (text, broke, after) := Plain.scan (s.depth != 0) (s.indent + 1) (s.size + 2) s.place
  return { s.push (.scalar (Text.ofChars text) .plain) s.place.line with
    place := after, allowsKey := broke }

/-! ## All tokens -/

/-- Skips blanks, comments and line ends.  After a line end in a block a key may start. -/
def skipToToken (fuel : Nat) (s : Scanner) : Scanner :=
  match fuel with
  | 0 => s
  | n + 1 =>
    let c := s.place.skipBlanks.skipComment
    if c.meets isBreak then
      skipToToken n { s with place := c.takeBreak.2, allowsKey := s.allowsKey || s.depth == 0 }
    else { s with place := c }

def skipMark (s : Scanner) : Scanner :=
  if s.place.index == 0 && s.place.sees '\uFEFF' then { s with place := s.place.next } else s

def startsPlain (s : Scanner) : Bool :=
  match s.place.head? with
  | none => false
  | some x =>
    !(endsToken (some x) || isOneOf "-?:,[]\x7b\x7d#&*!|>'\"%@\x60" x) ||
      (!endsToken (s.place.peek? 1) && (x == '-' || (s.depth == 0 && isOneOf "?:" x)))

def takeToken (s : Scanner) : Except Fault Scanner :=
  let c := s.place
  let atLineStart := c.column == 0
  let apart := endsToken (c.peek? 1)
  match c.head? with
  | none => takeEnd s
  | some x =>
    if x == '%' && atLineStart then takeDirective s
    else if x == '-' && atLineStart && c.atDocumentMark then takeDocumentMark .documentStart s
    else if x == '.' && atLineStart && c.atDocumentMark then takeDocumentMark .documentEnd s
    else if x == '[' then takeOpening .flowSequenceStart s
    else if x == '{' then takeOpening .flowMappingStart s
    else if x == ']' then takeClosing .flowSequenceEnd s
    else if x == '}' then takeClosing .flowMappingEnd s
    else if x == ',' then takeFlowEntry s
    else if x == '-' && apart then takeBlockEntry s
    else if x == '?' && (s.depth != 0 || apart) then takeKey s
    else if x == ':' && (s.depth != 0 || apart) then takeValue s
    else if x == '*' then takeKeyLike scanAlias s
    else if x == '&' then takeKeyLike scanAnchor s
    else if x == '!' then takeKeyLike scanTag s
    else if x == '|' && s.depth == 0 then takeBlockScalar false s
    else if x == '>' && s.depth == 0 then takeBlockScalar true s
    else if x == '\'' then takeKeyLike (scanQuoted false (s.size + 2)) s
    else if x == '"' then takeKeyLike (scanQuoted true (s.size + 2)) s
    else if startsPlain s then takePlain s
    else c.broken (some "while scanning for the next token")
      ("found character " ++ Cursor.display (some x) ++ " that cannot start any token")

def step (s : Scanner) : Except Fault Scanner := do
  let s ← dropStale (skipToToken (s.size + 1) s.skipMark)
  let s ← takeToken (s.unwind s.place.column)
  if s.isDone then return s else dropStale s

def run (fuel : Nat) (s : Scanner) : Tokens :=
  match fuel with
  | 0 => ⟨s.settled.reverse, none⟩
  | n + 1 =>
    let s := s.settle
    if s.isDone then ⟨s.settled.reverse, none⟩
    else
      match step s with
      | .ok s => run n s
      | .error fault => ⟨s.settled.reverse, some fault⟩

end Scanner

def Tokens.ofChars (cs : List Char) : Tokens :=
  Scanner.run (cs.length + 3) { place := { rest := cs }, size := cs.length }

end ApiRoutes.Yaml
