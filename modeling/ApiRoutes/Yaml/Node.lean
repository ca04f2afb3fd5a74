import ApiRoutes.Yaml.Tag
import ApiRoutes.Yaml.Tokens
/-!
# Nodes

The tree of the nodes of a text.  Every node has a number of its own, by which the places are known
that share it through an alias.  `Node.ofTokens` reads the first document of a text, which has to be
the only one.
-/
namespace ApiRoutes.Yaml

/-- A node, its number and the line that it starts on. -/
inductive Node where
  | scalar (number : Nat) (tag : Tag) (text : Text) (line : Nat)
  | sequence (number : Nat) (tag : Tag) (items : List Node) (line : Nat)
  /-- A mapping; `fault` is that of its merge keys, once these are replaced. -/
  | mapping (number : Nat) (tag : Tag) (entries : List (Node × Node)) (fault : Option Fault)
      (line : Nat)
  /-- An alias for a node that this one is part of. -/
  | back (number line : Nat)
  deriving Inhabited

namespace Node

def kindName : Node → String
  | .scalar .. => "scalar"
  | .sequence .. => "sequence"
  | .mapping .. | .back .. => "mapping"

def line : Node → Nat
  | .scalar _ _ _ l | .sequence _ _ _ l | .mapping _ _ _ _ l | .back _ l => l

def tag : Node → Tag
  | .scalar _ t _ _ | .sequence _ t _ _ | .mapping _ t _ _ _ => t
  | .back .. => .mapping

end Node

/-- A node with a name, and the line of its first occurrence. -/
structure Anchored where
  name : List Char
  line : Nat
  node : Node

/-- What is known while nodes are read. -/
structure Composer where
  tokens : Tokens
  /-- The prefixes of tags by their handles. -/
  handles : List (List Char × List Char) := []
  anchors : List Anchored := []
  /-- How many nodes there are. -/
  count : Nat := 0

abbrev Compose (α : Type) := StateT Composer (Except Fault) α

namespace Compose

/-! ## Tokens -/

def peek : Compose Token := do
  let s ← get
  match s.tokens.list, s.tokens.fault with
  | t :: _, _ => return t
  | [], some f => throw f
  | [], none => return ⟨.streamEnd, 0⟩

def advance : Compose Unit :=
  modify fun s => { s with tokens := { s.tokens with list := s.tokens.list.drop 1 } }

def broken {α : Type} (context : Option Text) (problem : Text) (line : Nat) : Compose α :=
  throw (.broken context problem line)

/-- The kind of a token, in quotes. -/
def shown (t : Token) : Text := "'" ++ t.kind.name ++ "'"

def newNumber : Compose Nat := modifyGet fun s => (s.count, { s with count := s.count + 1 })

/-! ## Properties -/

/-- What may stand before the content of a node. -/
structure Properties where
  anchor : Option (List Char) := none
  tag : Option (Option (List Char) × List Char) := none
  line : Nat
  tagLine : Nat

/-- Reads an anchor and a tag, in either order. -/
def properties : Compose Properties := do
  let first ← peek
  let bare : Properties := { line := first.line, tagLine := first.line }
  match first.kind with
  | .anchor a =>
    advance
    let second ← peek
    match second.kind with
    | .tag h t =>
      advance
      return { bare with anchor := some a, tag := some (h, t), tagLine := second.line }
    | _ => return { bare with anchor := some a }
  | .tag h t =>
    advance
    match (← peek).kind with
    | .anchor a =>
      advance
      return { bare with anchor := some a, tag := some (h, t) }
    | _ => return { bare with tag := some (h, t) }
  | _ => return bare

/-- The tag of a node, when it has one; a lone mark is none. -/
def tagOf (p : Properties) : Compose (Option Tag) := do
  match p.tag with
  | none => return none
  | some (none, uri) => return if uri == ['!'] then none else some (.ofUri (Text.ofChars uri))
  | some (some handle, suffix) =>
    match (← get).handles.find? (·.1 == handle) with
    | some (_, lead) =>
      let uri := lead ++ suffix
      return if uri == ['!'] then none else some (.ofUri (Text.ofChars uri))
    | none =>
      broken (some "while parsing a node")
        ("found undefined tag handle " ++ Text.display (Text.ofChars handle)) p.tagLine

def checkAnchor (p : Properties) : Compose Unit := do
  match p.anchor with
  | none => return ()
  | some name =>
    match (← get).anchors.find? (·.name == name) with
    | some _ =>
      broken (some ("found duplicate anchor " ++ Text.display (Text.ofChars name) ++
        "; first occurrence")) "second occurrence" p.line
    | none => return ()

/-- Names a node, or names it anew. -/
def name (p : Properties) (n : Node) : Compose Unit :=
  match p.anchor with
  | none => return ()
  | some name =>
    modify fun s => { s with
      anchors := ⟨name, p.line, n⟩ :: s.anchors.filter (·.name != name) }

def aliased (name : List Char) (line : Nat) : Compose Node := do
  match (← get).anchors.find? (·.name == name) with
  | some a => return a.node
  | none =>
    broken none ("found undefined alias " ++ Text.display (Text.ofChars name)) line

/-! ## Content -/

def emptyScalar (line : Nat) : Compose Node := return .scalar (← newNumber) .null [] line

def scalarNode (p : Properties) (tag : Tag) (text : Text) : Compose Node := do
  checkAnchor p
  let n := Node.scalar (← newNumber) tag text p.line
  name p n
  return n

/-- A node that holds others.  Inside of it an alias for it is known as such. -/
def collection {α : Type} (p : Properties) (make : Nat → List α → Nat → Node)
    (content : Compose (List α)) : Compose Node := do
  checkAnchor p
  let number ← newNumber
  name p (.back number p.line)
  let n := make number (← content) p.line
  name p n
  return n

def sequenceNode (p : Properties) (tag : Option Tag) (items : Compose (List Node)) : Compose Node :=
  collection p (fun number items line => .sequence number (tag.getD .sequence) items line) items

def mappingNode (p : Properties) (tag : Option Tag) (entries : Compose (List (Node × Node))) :
    Compose Node :=
  collection p (fun number entries line => .mapping number (tag.getD .mapping) entries none line) entries

/-- Has an item of a block no content before this token? -/
def endsItem (k : TokenKind) : Bool := k == .blockEntry || k == .blockEnd

/-- Has a key or value of a block no content before this token?  Neither has an item that stands as
far to the left as the mapping around it. -/
def endsPart (k : TokenKind) : Bool := k == .key || k == .value || k == .blockEnd

/-- The end of a collection, or the comma before its next part, unless that is the first. -/
def separator (first : Bool) (closing : TokenKind) (context expected : String) :
    Compose Unit := do
  let t ← peek
  if first || t.kind == closing then return ()
  else if t.kind == .flowEntry then advance
  else broken (some context) ("expected ',' or '" ++ expected ++ "', but got " ++ shown t) t.line

def blockEnd (context : String) (t : Token) : Compose Unit :=
  if t.kind == .blockEnd then advance
  else broken (some context) ("expected <block end>, but found " ++ shown t) t.line

mutual

/-- Reads a node.  Only in a block may it be a block itself, and only as a part of a mapping may its
items stand as far to the left as the mapping.  Every call takes one of `fuel`; twice as much as
there are tokens is enough. -/
def node (inBlock atMapping : Bool) (fuel : Nat) : Compose Node := do
  match fuel with
  | 0 => emptyScalar 0
  | f + 1 =>
    let first ← peek
    match first.kind with
    | .alias a =>
      advance
      aliased a first.line
    | _ => content inBlock atMapping (← properties) f

def content (inBlock atMapping : Bool) (p : Properties) (fuel : Nat) : Compose Node := do
  match fuel with
  | 0 => emptyScalar 0
  | f + 1 =>
    let tag ← tagOf p
    let t ← peek
    match t.kind, inBlock, atMapping with
    | .blockEntry, _, true => sequenceNode p tag (looseItems f)
    | .scalar text style, _, _ =>
      advance
      let isPlain := (style == .plain && p.tag.isNone) || (tag.isNone && p.tag.isSome)
      scalarNode p (tag.getD (if isPlain then .ofSpelling text else .text)) text
    | .flowSequenceStart, _, _ => sequenceNode p tag do advance; flowItems true f
    | .flowMappingStart, _, _ => mappingNode p tag do advance; flowEntries true f
    | .blockSequenceStart, true, _ => sequenceNode p tag do advance; blockItems f
    | .blockMappingStart, true, _ => mappingNode p tag do advance; blockEntries f
    | _, _, _ =>
      if p.anchor.isSome || p.tag.isSome then scalarNode p (tag.getD .null) []
      else
        let what : String := if inBlock then "block" else "flow"
        broken (some ("while parsing a " ++ what ++ " node"))
          ("expected the node content, but found " ++ shown t) t.line

def blockItems (fuel : Nat) : Compose (List Node) := do
  match fuel with
  | 0 => return []
  | f + 1 =>
    let t ← peek
    if t.kind == .blockEntry then
      advance
      let item ← if endsItem (← peek).kind then emptyScalar t.line else node true false f
      return item :: (← blockItems f)
    else
      blockEnd "while parsing a block collection" t
      return []

/-- Reads items that stand as far to the left as the mapping around them. -/
def looseItems (fuel : Nat) : Compose (List Node) := do
  match fuel with
  | 0 => return []
  | f + 1 =>
    let t ← peek
    if t.kind == .blockEntry then
      advance
      let next := (← peek).kind
      let item ← if endsItem next || endsPart next then emptyScalar t.line else node true false f
      return item :: (← looseItems f)
    else return []

def blockEntries (fuel : Nat) : Compose (List (Node × Node)) := do
  match fuel with
  | 0 => return []
  | f + 1 =>
    let t ← peek
    if t.kind == .key then
      advance
      let key ← if endsPart (← peek).kind then emptyScalar t.line else node true true f
      let t ← peek
      let value ←
        if t.kind == .value then do
          advance
          if endsPart (← peek).kind then emptyScalar t.line else node true true f
        else emptyScalar t.line
      return (key, value) :: (← blockEntries f)
    else
      blockEnd "while parsing a block mapping" t
      return []

def flowItems (first : Bool) (fuel : Nat) : Compose (List Node) := do
  match fuel with
  | 0 => return []
  | f + 1 =>
    separator first .flowSequenceEnd "while parsing a flow sequence" "]"
    let t ← peek
    if t.kind == .flowSequenceEnd then
      advance
      return []
    else
      let item ←
        if t.kind == .key then
          mappingNode { line := t.line, tagLine := t.line } none do return [← flowPair f]
        else node false false f
      return item :: (← flowItems false f)

def flowPair (fuel : Nat) : Compose (Node × Node) := do
  match fuel with
  | 0 => return (← emptyScalar 0, ← emptyScalar 0)
  | f + 1 =>
    let ends (k : TokenKind) : Bool := k == .flowEntry || k == .flowSequenceEnd
    let t ← peek
    advance
    let next := (← peek).kind
    let key ← if next == .value || ends next then emptyScalar t.line else node false false f
    let t ← peek
    if t.kind == .value then
      advance
      return (key, ← if ends (← peek).kind then emptyScalar t.line else node false false f)
    else return (key, ← emptyScalar t.line)

def flowEntries (first : Bool) (fuel : Nat) : Compose (List (Node × Node)) := do
  match fuel with
  | 0 => return []
  | f + 1 =>
    let ends (k : TokenKind) : Bool := k == .flowEntry || k == .flowMappingEnd
    separator first .flowMappingEnd "while parsing a flow mapping" "\x7d"
    let t ← peek
    if t.kind == .flowMappingEnd then
      advance
      return []
    else if t.kind == .key then
      advance
      let next := (← peek).kind
      let key ← if next == .value || ends next then emptyScalar t.line else node false false f
      let t ← peek
      let value ←
        if t.kind == .value then do
          advance
          if ends (← peek).kind then emptyScalar t.line else node false false f
        else emptyScalar t.line
      return (key, value) :: (← flowEntries false f)
    else
      let key ← node false false f
      let value ← emptyScalar (← peek).line
      return (key, value) :: (← flowEntries false f)

end

/-! ## Documents -/

def standardHandles : List (List Char × List Char) :=
  [(['!'], ['!']), (['!', '!'], "tag:yaml.org,2002:".toList)]

def directives (hasVersion : Bool) (fuel : Nat) : Compose Unit := do
  match fuel with
  | 0 => return ()
  | f + 1 =>
    let t ← peek
    match t.kind with
    | .directive (.version major) =>
      advance
      if hasVersion then broken none "found duplicate YAML directive" t.line
      else if major ≠ 1 then
        broken none "found incompatible YAML document (version 1.* is required)" t.line
      else directives true f
    | .directive (.tag handle lead) =>
      advance
      if (← get).handles.any (·.1 == handle) then
        broken none ("duplicate tag handle " ++ Text.display (Text.ofChars handle)) t.line
      else
        modify fun s => { s with handles := s.handles ++ [(handle, lead)] }
        directives hasVersion f
    | .directive .other =>
      advance
      directives hasVersion f
    | _ => return ()

def skipEnds (fuel : Nat) : Compose Unit := do
  match fuel with
  | 0 => return ()
  | f + 1 =>
    if (← peek).kind == .documentEnd then
      advance
      skipEnds f

/-- Reads the start of a document with a mark and gives its line; nothing at the end of the text. -/
def documentStart (fuel : Nat) : Compose (Option Nat) := do
  skipEnds fuel
  let t ← peek
  if t.kind == .streamEnd then return none
  else
    modify fun s => { s with handles := [] }
    directives false fuel
    modify fun s => { s with
      handles := s.handles ++ standardHandles.filter fun h => !s.handles.any (·.1 == h.1) }
    let mark ← peek
    if mark.kind == .documentStart then
      advance
      return some t.line
    else broken none ("expected '<document start>', but found " ++ shown mark) mark.line

def endsDocument : TokenKind → Bool
  | .directive _ | .documentStart | .documentEnd | .streamEnd => true
  | _ => false

def documentNode (fuel : Nat) : Compose (Option Node) := do
  let t ← peek
  let startsWithMark := match t.kind with
    | .directive _ | .documentStart | .streamEnd => true
    | _ => false
  if startsWithMark then
    match ← documentStart fuel with
    | none => return none
    | some _ =>
      let t ← peek
      return some (← if endsDocument t.kind then emptyScalar t.line else node true false fuel)
  else
    modify fun s => { s with handles := standardHandles }
    return some (← node true false fuel)

def document (fuel : Nat) : Compose (Option Node) := do
  match ← documentNode fuel with
  | none => return none
  | some n =>
    if (← peek).kind == .documentEnd then advance
    match ← documentStart fuel with
    | none => return some n
    | some line =>
      broken (some "expected a single document in the stream") "but found another document" line

end Compose

/-- The node of the only document among tokens; nothing when there is no document. -/
def Node.ofTokens (tokens : Tokens) : Except Fault (Option Node) :=
  ((Compose.document (2 * tokens.list.length + 4)).run { tokens }).map (·.1)

end ApiRoutes.Yaml
