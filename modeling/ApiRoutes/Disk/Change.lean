import ApiRoutes.Disk.Tree
import ApiRoutes.Edit
/-!
# Changing a disk

Folders are made together with those above them (`ensureFolders`).  A file is written beside the
one that it replaces and then renamed, so that there is always the old text or the new one
(`writeAtomically`).
-/
namespace ApiRoutes.Disk

/-- Fails when the disk refuses a change. -/
def permit (deed : Deed) (l : Location) (p : Path) : Edit Disk Unit := do
  match (← get).refusal deed l with
  | some fault => throw (.system fault p.text)
  | none => return

/-! ## Folders -/

def makeFolder (p : Path) : Edit Disk Unit := do
  let l ← Edit.ask (·.find p)
  if p.name.isEmpty || p.name == Path.up || ((← get).item? l).isSome then
    throw (.system .exists p.text)
  permit .makeFolder l p
  modify (put l .folder)

/-- What becomes of a folder that could not be made: it may be there already. -/
def unlessFolder (p : Path) (f : Failure) : Edit Disk Unit :=
  match f with
  | .system _ _ => do
    if !(← Edit.ask (·.holdsFolder p)) then throw f
  | f => throw f

def ensureFolder (p : Path) : Edit Disk Unit :=
  tryCatch (makeFolder p) fun f =>
    match f with
    | .system .notFound _ => throw f
    | f => unlessFolder p f

/-- Makes sure that there is a folder, by its names from the last to the first. -/
def ensureFoldersBack (root : Text) : List Text → Edit Disk Unit
  | [] => ensureFolder ⟨root, []⟩
  | name :: above =>
    let p : Path := ⟨root, (name :: above).reverse⟩
    tryCatch (makeFolder p) fun f =>
      match f with
      | .system .notFound _ => do
        ensureFoldersBack root above
        ensureFolder p
      | f => unlessFolder p f

/-- Makes sure that there is a folder, and all those above it. -/
def ensureFolders (p : Path) : Edit Disk Unit := ensureFoldersBack p.root p.names.reverse

/-! ## Files -/

def temporaryTries : Nat := 10000

def temporaryName (n : Nat) : Text := ".tmp." ++ Text.ofNat n

/-- A place for a temporary file in a folder, under another name than `avoided`; the `n`-th name is
tried first. -/
def temporaryPlaceFrom (d : Disk) (folder : Location) (avoided : Text) (n : Nat) :
    Nat → Option Location
  | 0 => none
  | tries + 1 =>
    let l := folder ++ [temporaryName n]
    if temporaryName n != avoided && (d.item? l).isNone then some l
    else temporaryPlaceFrom d folder avoided (n + 1) tries

/-- A place for a temporary file in a folder, under another name than `avoided`. -/
def temporaryPlace? (d : Disk) (folder : Location) (avoided : Text) : Option Location :=
  temporaryPlaceFrom d folder avoided 0 temporaryTries

/-- Makes an empty file in a folder, under another name than `avoided`. -/
def createTemporary (folder : Path) (avoided : Text) : Edit Disk Location := do
  let l ← Edit.ask (·.find folder)
  match temporaryPlace? (← get) l avoided with
  | none => throw (.system .exists folder.text)
  | some l =>
    permit .createFile l folder
    modify (put l (.file []))
    return l

def fillFile (l : Location) (p : Path) (content : Text) : Edit Disk Unit := do
  match content.toUtf8? with
  | none => throw (.misuse .unencodable)
  | some bytes =>
    permit .writeFile l p
    modify (put l (.file bytes))

/-- Gives a file the name of another path, and so replaces the file that has it. -/
def renameFile (source : Location) (p : Path) : Edit Disk Unit := do
  let l ← Edit.ask (·.find p)
  if p.name.isEmpty || p.name == Path.up then throw (.system .busy p.text)
  let d ← get
  if d.item? l = some .folder then throw (.system .isADirectory p.text)
  permit .rename l p
  match d.item? source with
  | some item => modify fun d => (d.erase source).put l item
  | none => throw (.system .notFound p.text)

def writeAtomically (p : Path) (content : Text) : Edit Disk Unit := do
  ensureFolders p.parent
  let _ ← Edit.ask (·.holds p)
  let temporary ← createTemporary p.parent p.name
  Edit.andThen (do fillFile temporary p.parent content; renameFile temporary p) (erase temporary)

def writeFile (p : Path) (content : Text) : Edit Disk Unit := do
  let l ← Edit.ask (·.find p)
  if (← get).item? l = some .folder then throw (.system .isADirectory p.text)
  permit .createFile l p
  fillFile l p content

end ApiRoutes.Disk
