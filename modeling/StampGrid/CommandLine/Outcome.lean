import StampGrid.Text.Numeral

/-!
# What a command leaves behind

A command ends with an exit status and two texts. A failure is told as its
message and, below it, the reasons behind it, nearest first; several reasons are
numbered, and every further line of a reason is indented like its first.
-/
namespace StampGrid.CommandLine

structure Outcome where
  status : Nat
  stdout : List UInt8 := []
  stderr : String := ""
  deriving DecidableEq, Repr

/-- Why a command failed: the message, and the reasons behind it. -/
structure Failure where
  message : String
  reasons : List String
  deriving DecidableEq, Repr

namespace Failure

/-- A failure told under a heading, which hides nothing. -/
def under (heading : String) (chain : List String) : Failure := ⟨heading, chain⟩

def ofChain : List String → Failure
  | [] => ⟨"", []⟩
  | message :: reasons => ⟨message, reasons⟩

/-- A text with `filler` put in after each newline. -/
def indent (filler : String) (text : String) : String :=
  String.ofList (text.toList.flatMap fun c => if c = '\n' then '\n' :: filler.toList else [c])

def paragraph (several : Bool) (index : Nat) (reason : String) : String :=
  if several then
    let digits := Text.Numeral.decimal index
    "\n" ++ String.ofList (List.replicate (5 - digits.length) ' ') ++ digits ++ ": " ++
      indent "       " reason
  else "\n    " ++ indent "    " reason

def report (f : Failure) : String :=
  let causes := match f.reasons with
    | [] => ""
    | reasons => "\n\nCaused by:" ++ String.join
        (reasons.zipIdx.map fun (reason, i) => paragraph (reasons.length > 1) i reason)
  s!"Error: {f.message}" ++ causes ++ "\n"

end Failure
end StampGrid.CommandLine
