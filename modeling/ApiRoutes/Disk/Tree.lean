import ApiRoutes.Disk.Path
import ApiRoutes.Text.Utf8
/-!
# Disks

A disk holds files and folders.  What is asked of it without changing it is a function of the disk:
what a path leads to (`Disk.locate`, `Disk.holds`) and what a file says (`Disk.readText`).
-/
namespace ApiRoutes

abbrev Location := List Text

/-- What there can be at a place. -/
inductive Item where
  | file (bytes : List UInt8)
  | folder
  deriving DecidableEq

/-- The changes that a disk can refuse. -/
inductive Deed where
  | makeFolder
  | createFile
  | writeFile
  | rename
  deriving DecidableEq

/-- A disk. -/
structure Disk where
  /-- What there is, by place. -/
  items : List (Location × Item) := []
  /-- The working folder; it and the folders above it are always there. -/
  here : Location := []
  /-- What the disk refuses although nothing on it stands in the way. -/
  refusal : Deed → Location → Option SystemFault := fun _ _ => none

namespace Disk

def item? (d : Disk) (l : Location) : Option Item :=
  if l.isPrefixOf d.here then some .folder else (d.items.find? fun e => e.1 == l).map (·.2)

/-- The disk without what there is at a place. -/
def erase (l : Location) (d : Disk) : Disk :=
  { d with items := d.items.filter fun e => e.1 != l }

/-- The disk with something at a place, whatever was there. -/
def put (l : Location) (item : Item) (d : Disk) : Disk :=
  { d with items := (l, item) :: (d.erase l).items }

/-! ## Paths -/

def nameLimit : Nat := 255

def pathLimit : Nat := 4095

/-- Goes from a place through names.  All but the last place on the way must be folders. -/
def walk (d : Disk) (l : Location) : List Text → Except SystemFault Location
  | [] => .ok l
  | name :: rest =>
    match d.item? l with
    | none => .error .notFound
    | some (.file _) => .error .notADirectory
    | some .folder =>
      if name == Path.up then walk d l.dropLast rest
      else if nameLimit < name.nameSize?.getD 0 then .error .nameTooLong
      else walk d (l ++ [name]) rest

/-- The place that a path names, whether there is something or not. -/
def locate (d : Disk) (p : Path) : Except SystemFault Location :=
  if pathLimit < p.text.nameSize?.getD 0 then .error .nameTooLong
  else d.walk (if p.root.isEmpty then d.here else []) p.names

/-- The place that a path names, or a failure that tells the path. -/
def find (d : Disk) (p : Path) : Outcome Location := do
  p.check
  (d.locate p).mapError fun fault => .system fault p.text

/-- What there is at a path.  A path that leads nowhere has nothing. -/
def at? (d : Disk) (p : Path) : Outcome (Option Item) :=
  match p.check with
  | .error _ => .ok none
  | .ok () =>
    match d.locate p with
    | .ok l => .ok (d.item? l)
    | .error .notFound | .error .notADirectory => .ok none
    | .error fault => .error (.system fault p.text)

def holds (d : Disk) (p : Path) : Outcome Bool := return (← d.at? p).isSome

def holdsFolder (d : Disk) (p : Path) : Outcome Bool := return (← d.at? p) == some .folder

/-! ## Reading -/

def unifyLineEnds : Text → Text
  | [] => []
  | .scalar '\r' :: .scalar '\n' :: rest => .scalar '\n' :: unifyLineEnds rest
  | c :: rest => (if c = .scalar '\r' then .scalar '\n' else c) :: unifyLineEnds rest

def readBytes (d : Disk) (p : Path) : Outcome (List UInt8) := do
  match d.item? (← d.find p) with
  | some (.file bytes) => .ok bytes
  | some .folder => .error (.system .isADirectory p.text)
  | none => .error (.system .notFound p.text)

def readText (d : Disk) (p : Path) : Outcome Text := do
  match Text.ofUtf8? (← d.readBytes p) with
  | some t => .ok (unifyLineEnds t)
  | none => .error (.misuse .undecodable)

/-- The text of a file; nothing when there is no file. -/
def readText? (d : Disk) (p : Path) : Outcome (Option Text) := do
  if ← d.holds p then some <$> d.readText p else return none

end Disk

end ApiRoutes
