import StampGrid.CommandLine.Execute

/-!
# The executable

The outer layer of the command line: it fetches the standard input and the
script file that the arguments name, lets the library carry out the command on
them, and prints what the library answers. It offers no compositing programs
and stores no pictures, so planning is what it is of use for by itself.
-/
namespace StampGrid.Main

open StampGrid.CommandLine

def scriptPath? : Option Request → Option String
  | some (.run options) => options.script?
  | some (.plan options) => options.script?
  | _ => none

def readAll (stream : IO.FS.Stream) : IO (List UInt8) := do
  let mut data := ByteArray.empty
  repeat
    let portion ← stream.read 65536
    if portion.isEmpty then break
    data := data ++ portion
  return data.toList

/-- A disk on which the file of this path is stored, if it can be read. -/
def fetch (path : String) : IO Disk := do
  try
    let data ← IO.FS.readBinFile path
    let (_, d) := Disk.ensureParent {} path
    return (d.writeFile path (.octets data.toList)).toOption.getD d
  catch _ => return {}

def carryOut (args : List String) : IO UInt32 := do
  let (stdin, disk) ← match scriptPath? (Request.ofArgs? args) with
    | some path => pure ([], ← fetch path)
    | none => pure (← readAll (← IO.getStdin), {})
  let (outcome, _) := execute (fun _ => none) args stdin disk
  (← IO.getStdout).write ⟨outcome.stdout.toArray⟩
  (← IO.getStderr).putStr outcome.stderr
  return outcome.status.toUInt32

end StampGrid.Main

def main (args : List String) : IO UInt32 := StampGrid.Main.carryOut args
