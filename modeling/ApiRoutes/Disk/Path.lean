import ApiRoutes.Failure
/-!
# Paths

A path names a place on a disk.  Slashes part its names; empty names and single points lead nowhere
and are dropped.  A path that starts with a slash goes from the top of the disk, any other from the
working folder.
-/
namespace ApiRoutes

namespace CodePoint

/-- How many bytes the code point takes in the name of a file.  The upper half of the second
surrogates stands for single bytes that are not UTF-8; other surrogates are in no name. -/
def nameSize? : CodePoint → Option Nat
  | .scalar c => some c.utf8Size
  | .surrogate offset => if 0x480 ≤ offset.val ∧ offset.val < 0x500 then some 1 else none

end CodePoint

/-- How many bytes a text takes in the name of a file, when it can be in one. -/
def Text.nameSize? (t : Text) : Option Nat := t.foldlM (fun n c => (CodePoint.nameSize? c).map (n + ·)) 0

/-- A path. -/
structure Path where
  /-- The slashes in front; none when the path goes from the working folder. -/
  root : Text := []
  names : List Text := []
  deriving DecidableEq

namespace Path

def up : Text := ".."

/-- The slashes in front of a path.  Two are kept, more count as one. -/
def rootOf (t : Text) : Text :=
  match (t.takeWhile fun c => c == .scalar '/').length with
  | 0 => []
  | 2 => "//"
  | _ => "/"

def leads (name : Text) : Bool := !name.isEmpty && name != "."

def ofText (t : Text) : Path := ⟨rootOf t, (Text.splitAt '/' t).filter leads⟩

def text (p : Path) : Text :=
  match p.root, p.names with
  | [], [] => "."
  | root, names => root ++ Text.joinWith "/" names

/-- A path that goes on from another, unless it goes from the top. -/
def join (p q : Path) : Path := if q.root.isEmpty then ⟨p.root, p.names ++ q.names⟩ else q

/-- The path that a text spells, going on from another path. -/
def child (p : Path) (t : Text) : Path := p.join (ofText t)

def parent (p : Path) : Path := { p with names := p.names.dropLast }

def name (p : Path) : Text := p.names.getLast?.getD []

def check (p : Path) : Outcome Unit :=
  if p.text.nameSize?.isNone then .error (.misuse .unencodable)
  else if p.text.any (· == .scalar '\x00') then .error (.misuse .nullInPath)
  else .ok ()

end Path

end ApiRoutes
