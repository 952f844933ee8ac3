import StampGrid.Script.Arguments
import StampGrid.Script.Statement
import StampGrid.Table

/-!
# Drafts

A draft is what a script has said so far: variables, images by name, the image
to start from, and axes in the order of their first declaration. A command that
is unknown or does not have its form is noted and passed over; a command that
cannot be carried out leaves the draft as it was.
-/
namespace StampGrid

/-- A reason to pass over a statement. -/
inductive Problem where
  | unknownCommand (command : String)
  /-- The arguments do not have the form that the command needs. -/
  | mismatch (command : Keyword) (args : String)
  deriving DecidableEq, Repr

namespace Problem

def message : Problem → String
  | unknownCommand command => s!"unknown command '{command}'"
  | mismatch command args =>
      s!"'{command.name}' arguments do not match the expected pattern: {args}"

end Problem

structure Diagnostic where
  line : Nat
  problem : Problem
  deriving DecidableEq, Repr

structure Draft where
  «variables» : Table String := ∅
  images : Table String := ∅
  /-- Where the image to start from is found. -/
  initial? : Option String := none
  /-- Axes from the outermost inwards. -/
  axes : List Axis := []
  diagnostics : Array Diagnostic := #[]
  /-- The line of the last statement carried out or tried. -/
  line : Nat := 0

namespace Draft

/-- Gives an axis its place: the one its name already has, or the innermost. -/
def placeAxis (axis : Axis) : List Axis → List Axis
  | [] => [axis]
  | a :: axes => if a.name = axis.name then axis :: axes else a :: placeAxis axis axes

def setVariable (d : Draft) (name value : String) : Draft :=
  { d with «variables» := d.variables.insert name value }

def setImage (d : Draft) (name locator : String) : Draft :=
  { d with images := d.images.insert name locator }

/-- Sets where to start from; an empty locator means nowhere. -/
def setInitial (d : Draft) (locator : String) : Draft :=
  { d with initial? := if locator = "" then none else some locator }

def setAxis (d : Draft) (axis : Axis) : Draft :=
  { d with axes := placeAxis axis d.axes }

def note (d : Draft) (problem : Problem) : Draft :=
  { d with diagnostics := d.diagnostics.push ⟨d.line, problem⟩ }

def apply (d : Draft) (command : Keyword) (args : String) : Except Fault Draft :=
  match command with
  | .var =>
    match Arguments.assignment? args with
    | some (name, value) => .ok (d.setVariable name value)
    | none => .ok (d.note (.mismatch .var args))
  | .range => (Arguments.axis args).map d.setAxis
  | .img => (Arguments.image args).map fun (name, locator) => d.setImage name locator
  | .miff => .ok (d.setInitial (Arguments.path args))

/-- Carries out a statement. The fault of a command carries the line. -/
def run (d : Draft) (s : Statement) : Except Fault Unit × Draft :=
  let d := { d with line := s.line }
  match Keyword.ofName? s.command with
  | none => (.ok (), d.note (.unknownCommand s.command))
  | some command =>
    match d.apply command s.args with
    | .ok d' => (.ok (), d')
    | .error fault => (.error (.atLine s.line fault), d)

def runAll (d : Draft) : List Statement → Except Fault Unit × Draft
  | [] => (.ok (), d)
  | s :: rest =>
    match d.run s with
    | (.ok (), d') => d'.runAll rest
    | (.error fault, d') => (.error fault, d')

theorem runAll_append (d : Draft) (ss ts : List Statement) :
    d.runAll (ss ++ ts) =
      match d.runAll ss with
      | (.ok (), d') => d'.runAll ts
      | (.error fault, d') => (.error fault, d') := by
  induction ss generalizing d with
  | nil => rfl
  | cons s ss ih =>
    simp only [List.cons_append, runAll]
    split
    · exact ih _
    · rfl

end Draft
end StampGrid
