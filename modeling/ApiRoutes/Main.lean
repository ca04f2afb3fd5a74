import ApiRoutes.CommandLine.Session
/-!
# The program

The places that a call is about are copied from the file system into a `Disk`, the session runs on
that, and what it changed is written back.
-/
open ApiRoutes

namespace ApiRoutes.Program

def stringOf (t : Text) : String := String.ofList (t.filterMap CodePoint.char?)

def addressOf (l : Location) : String := "/" ++ "/".intercalate (l.map stringOf)

/-- The place at an address, by its parts. -/
def locationOf (parts : List String) : Location := (parts.drop 1).map Text.ofString

def bytesOf (bytes : List UInt8) : ByteArray := ⟨bytes.toArray⟩

def copyPlace (d : Disk) (l : Location) : IO Disk := do
  let address := (← IO.currentDir) / addressOf l
  if ← address.isDir then return d.put l .folder
  if ← address.pathExists then
    return d.put l (.file (← IO.FS.readBinFile address).data.toList)
  return d

def copyWay (d : Disk) (l : Location) : IO Disk :=
  (List.range (l.length + 1)).foldlM (fun d n => copyPlace d (l.take n)) d

def copyBelow (d : Disk) (l : Location) : IO Disk := do
  let address := (← IO.currentDir) / addressOf l
  if !(← address.isDir) then return d
  (← address.walkDir).foldlM (fun d p => copyPlace d (locationOf p.components)) d

/-- The place of a path, every step of which counts. -/
def placeOf (d : Disk) (p : Path) : Location :=
  p.names.foldl (fun l name => if name == Path.up then l.dropLast else l ++ [name])
    (if p.root.isEmpty then d.here else [])

def copyPlaces (d : Disk) (places : List Path) : IO Disk :=
  places.foldlM (fun d p => do
    let d ← copyWay d (placeOf d p)
    if p.name == "src" then copyBelow d (placeOf d p) else return d) d

/-- Writes a file beside the one that it replaces, and then puts it in its place. -/
def writeBack (l : Location) (bytes : List UInt8) : IO Unit := do
  let address := addressOf l
  let beside := addressOf (l.dropLast ++ [".tmp." ++ l.getLast?.getD []])
  IO.FS.writeBinFile beside (bytesOf bytes)
  IO.FS.rename beside address

/-- Writes back what is not as it was before.  A folder stands behind what is in it. -/
def writeChanges (before after : Disk) : IO Unit := do
  for (l, item) in after.items.mergeSort fun a b => a.1.length ≤ b.1.length do
    if before.item? l != some item then
      match item with
      | .folder => IO.FS.createDirAll (addressOf l)
      | .file bytes => writeBack l bytes

def environment : IO CommandLine.Environment := do
  let names := [CommandLine.mainCommand, CommandLine.generateCommand].flatMap fun c =>
    c.options.map (·.variableName c.environmentLead)
  let values ← names.mapM fun name => do
    return (← IO.getEnv (stringOf name)).map fun value => (name, Text.ofString value)
  return values.filterMap id

end ApiRoutes.Program

open ApiRoutes.Program in
def main (arguments : List String) : IO UInt32 := do
  let words := arguments.map Text.ofString
  let env ← environment
  let here := locationOf (← IO.currentDir).components
  let disk ← copyPlaces { here } (CommandLine.placesOf env words)
  let ending := CommandLine.run env words disk
  writeChanges disk ending.console.disk
  (← IO.getStdout).putStr (stringOf ending.console.output)
  (← IO.getStderr).putStr (stringOf ending.console.errors)
  if ending.crash.isSome then IO.eprintln "Error: the input cannot be used"
  return ending.code.toUInt32
