import StampGrid.Text.Numeral

/-!
# What can go wrong

Every operation that can fail names its cause. The wording of a cause is fixed
in one place, and a cause may carry the script line on which it arose.
-/
namespace StampGrid

open Text

inductive Fault where
  | tooFewArguments (command : String) (expected found : Nat)
  /-- A word that should be a number of 64 bits is none. -/
  | notAnInteger (word : String)
  /-- An axis would stand still. -/
  | zeroStep (axis : String)
  | atLine (line : Nat) (cause : Fault)
  | undefinedVariable (name : String)
  | unknownImage (name : String)
  | tool (reason : String)
  | io (reason : String)
  /-- Anything else, with the reasons behind it, nearest first. -/
  | other (reason : String) (causes : List String)
  deriving DecidableEq, Repr

namespace Fault

def message : Fault → String
  | tooFewArguments command expected found =>
      s!"'{command}' expects at least {Numeral.decimal expected} argument(s), " ++
        s!"got {Numeral.decimal found}"
  | notAnInteger word => s!"expected '{word}' to be an integer"
  | zeroStep axis => s!"range step for axis '{axis}' must be non-zero"
  | atLine line cause => s!"line {Numeral.decimal line}: {cause.message}"
  | undefinedVariable name => s!"undefined variable '{name}'"
  | unknownImage name => s!"unknown img: '{name}'"
  | tool reason => s!"image tool error: {reason}"
  | io reason => s!"io error: {reason}"
  | other reason _ => reason

/-- The line of the outermost layer, if the cause carries one. -/
def line? : Fault → Option Nat
  | atLine line _ => some line
  | _ => none

/-- The cause without the lines attached to it. -/
def root : Fault → Fault
  | atLine _ cause => cause.root
  | fault => fault

/-- The message followed by the messages of the reasons behind it. A line layer
already quotes what it wraps, so nothing stands behind it. -/
def chain (fault : Fault) : List String :=
  fault.message :: match fault with
    | io reason => [reason]
    | other _ causes => causes
    | _ => []

end Fault
end StampGrid
