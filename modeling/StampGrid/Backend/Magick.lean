import StampGrid.Backend
import StampGrid.Disk

/-!
# Compositing by an external program

This backend starts a program for every stamp and for the final writing. An
image is a name on the program's command line, and the octets that the program
finds on its standard input when it uses the name. Loading an image only takes
down its name; the result of a stamp is whatever the program printed.
-/
namespace StampGrid.Magick

structure Image where
  name : String
  content : List UInt8
  deriving DecidableEq, Repr

namespace Image

/-- An image that the program reads from a file itself. -/
def ofFile (locator : String) : Image := ⟨locator, []⟩

/-- An image in a format, which the program reads from its standard input. -/
def ofBuffer (format : String) (content : List UInt8) : Image := ⟨format ++ ":-", content⟩

end Image

inductive Status where
  | exit (code : Nat)
  | killed (signal : Nat) (name : String)
  deriving DecidableEq, Repr

def Status.isSuccess (s : Status) : Bool := s = .exit 0

def Status.message : Status → String
  | .exit code => s!"exit status: {Text.Numeral.decimal code}"
  | .killed signal name => s!"signal: {Text.Numeral.decimal signal} ({name})"

structure Invocation where
  program : String
  args : List String
  stdin : List UInt8
  deriving DecidableEq, Repr

inductive Unstarted where
  | nulInWord
  | noSuchProgram
  | wordTooLong
  deriving DecidableEq, Repr

def Unstarted.message : Unstarted → String
  | nulInWord => "nul byte found in provided data"
  | noSuchProgram => "No such file or directory (os error 2)"
  | wordTooLong => "Argument list too long (os error 7)"

/-- The most octets of an argument with the mark that ends it. -/
def wordLimit : Nat := 131072

structure Finished where
  status : Status
  stdout : List UInt8
  stderr : List UInt8
  deriving DecidableEq, Repr

/-- A program: it reads its arguments and all of its input, may use the disk, and ends. -/
abbrev Program := (args : List String) → (stdin : List UInt8) → Disk → Finished × Disk

abbrev Programs := String → Option Program

/-- The disk, and the processes started so far. -/
structure Session where
  disk : Disk
  started : Array Invocation := #[]

def start (programs : Programs) (program : String) (args : List String) (stdin : List UInt8) :
    StateM Session (Except Unstarted Finished) := fun session =>
  if (program :: args).any fun word => word.toList.contains '\x00' then
    (.error .nulInWord, session)
  else match programs program with
    | none => (.error .noSuchProgram, session)
    | some behaviour =>
      if args.any fun word => wordLimit ≤ word.utf8ByteSize then (.error .wordTooLong, session)
      else
        let (finished, disk) := behaviour args stdin session.disk
        (.ok finished, ⟨disk, session.started.push ⟨program, args, stdin⟩⟩)

/-- The octets that a process finds on its input for these images. -/
def stdinOf (images : List Image) : List UInt8 := images.flatMap Image.content

/-- Runs the program on images; gives what it printed if it succeeds. -/
def run (programs : Programs) (program : String) (args : List String) (inputs : List Image) :
    Effect Session (List UInt8) := fun session =>
  match start programs program args (stdinOf inputs) session with
  | (.error reason, session') =>
    (.error (.tool (s!"failed to spawn '{program}' " ++
      s!"(is ImageMagick installed and on PATH?): {reason.message}")), session')
  | (.ok finished, session') =>
    if finished.status.isSuccess then (.ok finished.stdout, session')
    else
      let stderr := Text.trim (Text.Utf8.decode finished.stderr).toList
      (.error (.tool (s!"magick exited with status {finished.status.message}: " ++
        String.ofList stderr)), session')

/-- Whether the program can be started and reports success when asked for its version. -/
def isAvailable (programs : Programs) (program : String) (session : Session) : Bool × Session :=
  match start programs program ["-version"] [] session with
  | (.ok finished, session') => (finished.status.isSuccess, session')
  | (.error _, session') => (false, session')

/-- The arguments that ask for a stamp and print the result in a format. -/
def compositeArgs (foreground background : Image) (offset : Offset) (size? : Option Geometry)
    (format : String) : List String :=
  ["composite", "-geometry", Geometry.argument offset size?, foreground.name, background.name,
    format ++ ":-"]

/-- The format in which results are handed from process to process. -/
def interchange : String := "miff"

def backend (programs : Programs) (program : String) : Backend Session Image where
  load locator := pure (.ofFile locator)
  composite foreground background offset size? := do
    let args := compositeArgs foreground background offset size? interchange
    let printed ← run programs program args [foreground, background]
    pure (.ofBuffer interchange printed)
  write image path := fun session =>
    match session.disk.ensureParent path with
    | (.error fault, disk) => (.error fault, { session with disk })
    | (.ok (), disk) =>
      (do let _ ← run programs program [image.name, path] [image]).perform { session with disk }

end StampGrid.Magick
