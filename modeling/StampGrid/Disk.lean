import StampGrid.Disk.Path
import StampGrid.Fault
import StampGrid.Picture
import StampGrid.Script.Source
import StampGrid.Table
import StampGrid.Text.Utf8

/-!
# The working directory

A disk holds folders and files below one top folder, which is where relative
paths start. Following a path enters its folders one after the other, so every
segment but the last must lead to a folder, also when a later segment leads
back out of it.
-/
namespace StampGrid

inductive Content where
  | octets (data : List UInt8)
  /-- A picture in the lossless format of the disk. -/
  | picture (image : Picture)
  deriving DecidableEq

inductive Entry where
  | folder
  | file (content : Content)
  deriving DecidableEq

structure Disk where
  /-- Entries by their path from the top. -/
  entries : Table Entry := ∅

namespace Disk

inductive Refusal where
  | noSuchEntry
  | alreadyThere
  | notAFolder
  | isAFolder
  | nameTooLong
  | nulInName
  deriving DecidableEq, Repr

def Refusal.message : Refusal → String
  | noSuchEntry => "No such file or directory (os error 2)"
  | alreadyThere => "File exists (os error 17)"
  | notAFolder => "Not a directory (os error 20)"
  | isAFolder => "Is a directory (os error 21)"
  | nameTooLong => "File name too long (os error 36)"
  | nulInName => "file name contained an unexpected NUL byte"

/-- Names on the way from the top to a place. -/
abbrev Route := List (List Char)

/-- The entry at a route; the top itself is a folder. -/
def entry? (d : Disk) (route : Route) : Option Entry :=
  if route = [] then some .folder else d.entries.get? (String.ofList (Path.unsplit route))

/-- Puts an entry at a route, in the place of what was there. -/
def put (d : Disk) (route : Route) (entry : Entry) : Disk :=
  ⟨d.entries.insert (String.ofList (Path.unsplit route)) entry⟩

/-- Goes from a folder along one segment, which must lead to a folder. -/
def enter (d : Disk) (here : Route) (segment : List Char) : Except Refusal Route :=
  if Path.isIdle segment then .ok here
  else if segment = Path.up then .ok here.dropLast
  else if 255 < (Text.Utf8.encode segment).length then .error .nameTooLong
  else match d.entry? (here ++ [segment]) with
    | some .folder => .ok (here ++ [segment])
    | some (.file _) => .error .notAFolder
    | none => .error .noSuchEntry

/-- The folder that the last segment of a path is looked up in, and that segment. -/
def approach (d : Disk) (path : String) : Except Refusal (Route × List Char) :=
  let ss := Path.segments path.toList
  if path.toList.contains '\x00' then .error .nulInName
  else if path = "" then .error .noSuchEntry
  else if 4096 ≤ path.utf8ByteSize then .error .nameTooLong
  else (ss.dropLast.foldlM d.enter []).map fun here => (here, ss.getLastD [])

/-- Where a path leads, as far as its last segment may be missing: the route and
whether the last segment names an entry at it. -/
def target (d : Disk) (path : String) : Except Refusal (Route × Bool) := do
  let (here, last) ← d.approach path
  if Path.isIdle last || last == Path.up then
    let route ← d.enter here last
    pure (route, false)
  else if 255 < (Text.Utf8.encode last).length then .error .nameTooLong
  else pure (here ++ [last], true)

def find (d : Disk) (path : String) : Except Refusal Entry := do
  let (route, _) ← d.target path
  match d.entry? route with
  | some entry => pure entry
  | none => .error .noSuchEntry

def isFolder (d : Disk) (path : String) : Bool :=
  match d.find path with
  | .ok .folder => true
  | _ => false

def makeFolder (d : Disk) (path : String) : Except Refusal Disk := do
  let (route, named) ← d.target path
  if named && (d.entry? route).isNone then pure (d.put route .folder)
  else .error .alreadyThere

/-- Writes a file, in the place of one that may be there. A path with a slash at
its end can only mean a folder. -/
def writeFile (d : Disk) (path : String) (content : Content) : Except Refusal Disk := do
  let bare := (path.toList.reverse.dropWhile (· = '/')).reverse
  if bare ≠ path.toList then
    let _ ← d.approach (String.ofList bare)
    .error .isAFolder
  let (route, named) ← d.target path
  if named && d.entry? route != some .folder then pure (d.put route (.file content))
  else .error .isAFolder

/-- The outcome of making a folder: being refused does not matter if there is one. -/
def settle (d : Disk) (path : String) : Except Refusal Disk → Except Refusal Unit × Disk
  | .ok d' => (.ok (), d')
  | .error refusal => (if d.isFolder path then .ok () else .error refusal, d)

/-- Makes a folder; the folders that hold it, nearest first, are made when they
are missing. What was made stays also when the rest is refused. -/
def makeFolders (d : Disk) (path : String) : List String → Except Refusal Unit × Disk
  | [] => d.settle path (d.makeFolder path)
  | holder :: holders =>
    match d.makeFolder path with
    | .error .noSuchEntry =>
      match d.makeFolders holder holders with
      | (.ok (), d') => d'.settle path (d'.makeFolder path)
      | (.error refusal, d') => (.error refusal, d')
    | result => d.settle path result

/-- Makes the folder that a path lies in, if the path names one. -/
def ensureParent (d : Disk) (path : String) : Except Fault Unit × Disk :=
  let components := Path.Components.ofPath path.toList
  match Path.namedParents components.body.length components with
  | [] => (.ok (), d)
  | parent :: holders =>
    match d.makeFolders parent holders with
    | (.ok (), d') => (.ok (), d')
    | (.error refusal, d') =>
      (.error (.other s!"failed to create output directory '{parent}'" [refusal.message]), d')

/-- The octets that every picture file starts with. -/
def signature : List UInt8 := [0x89, 0x50, 0x4E, 0x47, 0x0D, 0x0A, 0x1A, 0x0A]

/-- A file opened for reading. A folder can be opened, but not read. -/
def source (d : Disk) (path : String) : Except Refusal Source := do
  match ← d.find path with
  | .folder => pure ⟨[.failure Refusal.isAFolder.message]⟩
  | .file (.octets data) => pure (.ofOctets data)
  | .file (.picture _) => pure (.ofOctets signature)

def script (d : Disk) (path : String) : Except Fault Source :=
  match d.source path with
  | .ok source => .ok source
  | .error refusal => .error (.other s!"open script '{path}'" [refusal.message])

/-- All entries by their names in order, folders with a slash behind. -/
def listing (d : Disk) : List String :=
  (d.entries.entries.map fun (name, entry) =>
    if entry = .folder then name ++ "/" else name).mergeSort fun a b => a ≤ b

end Disk
end StampGrid
