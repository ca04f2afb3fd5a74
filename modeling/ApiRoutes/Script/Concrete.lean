import ApiRoutes.Script.Cursor
/-!
# Concrete trees

The tree of a source as the grammar of scripts sees it, every token in its place.  A comment is a
child of the innermost node that has tokens on both sides of it: `Piece`s carry the comments in
front of them, and `Piece.node` puts those of every piece but the first inside the node.
-/
namespace ApiRoutes.Script

/-- The part that a child plays in its node. -/
inductive Role where
  | name | parameters | body | value | declaration | source | object | property | index | callee
  | arguments | left | right | key
  deriving DecidableEq, Repr

/-- The kinds of concrete trees that have a counterpart in script trees, or a part in one. -/
inductive Kind where
  | comment
  | identifier
  | string
  | number
  | truth (b : Bool)
  | null
  | member
  | subscript
  | call
  | assignment
  | object
  | array
  | pair
  | shorthand
  /-- A bare word that names a property. -/
  | propertyName
  | arguments
  | parameters
  | block
  | template
  | functionDeclaration
  | functionExpression
  | declaration
  | declarator
  | expressionStatement
  | returnStatement
  | importStatement
  | importClause
  | exportStatement
  | program
  /-- A construct without a counterpart. -/
  | other
  /-- The mark of an access that may find nothing. -/
  | optionalChain
  /-- A word or sign of the grammar. -/
  | token (spelling : String)
  deriving DecidableEq, Repr

/-- A concrete tree. -/
inductive Concrete where
  | node (kind : Kind) (role : Option Role) (span : Span) (children : List Concrete)

instance : Inhabited Concrete := ⟨.node .other none default []⟩

namespace Concrete

def kind : Concrete → Kind
  | .node kind .. => kind

def role : Concrete → Option Role
  | .node _ role .. => role

def span : Concrete → Span
  | .node _ _ span _ => span

def children : Concrete → List Concrete
  | .node _ _ _ children => children

/-- The tree in another role. -/
def withRole (role : Role) : Concrete → Concrete
  | .node kind _ span children => .node kind (some role) span children

def withKind (kind : Kind) : Concrete → Concrete
  | .node _ role span children => .node kind role span children

def text (t : Concrete) : Text := t.span.text

def firstRow (t : Concrete) : Nat := t.span.start.row

def lastRow (t : Concrete) : Nat := t.span.stop.row

def isComment (t : Concrete) : Bool := t.kind == .comment

def isNamed (t : Concrete) : Bool :=
  match t.kind with
  | .token _ => false
  | _ => true

def named (t : Concrete) : List Concrete := t.children.filter isNamed

def has (kind : Kind) (t : Concrete) : Bool := t.children.any (·.kind == kind)

mutual

def hasLongTemplate : Concrete → Bool
  | .node kind _ span children =>
    (kind == .template && span.isMultiline) || hasLongTemplates children

/-- Does a template literal below one of the trees reach over a line end? -/
def hasLongTemplates : List Concrete → Bool
  | [] => false
  | t :: rest => hasLongTemplate t || hasLongTemplates rest

end

end Concrete

/-- What the grammar has recognised, with the comments in front of it.  A piece without a tree is
the end of a statement that no sign marks. -/
structure Piece where
  before : List Concrete := []
  tree? : Option Concrete
  deriving Inhabited

namespace Piece

/-- A piece in another role. -/
def inRole (role : Role) (p : Piece) : Piece := { p with tree? := p.tree?.map (·.withRole role) }

def withKind (kind : Kind) (p : Piece) : Piece := { p with tree? := p.tree?.map (·.withKind kind) }

def trees (p : Piece) : List Concrete := p.before ++ p.tree?.toList

/-- A node made of pieces, which must not be empty.  It ends where its last child does. -/
def node (kind : Kind) : List Piece → Piece
  | [] => { tree? := none }
  | first :: rest =>
    let children := first.tree?.toList ++ rest.flatMap trees
    match children with
    | [] => first
    | t :: _ =>
      let last := children.getLast?.getD t
      { before := first.before, tree? := some (.node kind none ⟨t.span.start, last.span.stop⟩ children) }

end Piece

end ApiRoutes.Script
