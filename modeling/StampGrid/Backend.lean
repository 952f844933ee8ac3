import StampGrid.Fault
import StampGrid.Geometry

/-!
# Image backends

Scripts never look into an image: they load it, stamp it and write it through a
backend. A backend acts on a state, such as the files that it reads and writes,
and each of its acts succeeds or fails; a failed act may still change the state.
-/
namespace StampGrid

/-- An act on a state that gives a value or fails. -/
abbrev Effect (σ α : Type) := ExceptT Fault (StateM σ) α

namespace Effect

/-- Performs an act from a state; the state behind it is there also after a failure. -/
def perform {σ α : Type} (act : Effect σ α) (state : σ) : Except Fault α × σ := act state

/-- A result that needs no act. -/
def ofExcept {σ α : Type} (result : Except Fault α) : Effect σ α := fun state => (result, state)

end Effect

structure Backend (σ ι : Type) where
  /-- Finds the image that a locator names. -/
  load : (locator : String) → Effect σ ι
  /-- Stamps the foreground, scaled if a size is given, on the background. -/
  composite : (foreground background : ι) → Offset → Option Geometry → Effect σ ι
  write : ι → (path : String) → Effect σ Unit

inductive Call (ι : Type) where
  | load (locator : String)
  | composite (foreground background : ι) (offset : Offset) (size? : Option Geometry)
  | write (image : ι) (path : String)
  deriving DecidableEq, Repr

namespace Backend

/-- Enters a request in a record and makes it. -/
def entering {σ ι α : Type} (call : Call ι) (act : Effect σ α) : Effect (σ × Array (Call ι)) α :=
  fun (state, calls) =>
    let (result, state') := act state
    (result, (state', calls.push call))

/-- A backend that keeps a record of the requests made of it, failed ones included. -/
def recording {σ ι : Type} (b : Backend σ ι) : Backend (σ × Array (Call ι)) ι where
  load locator := entering (.load locator) (b.load locator)
  composite foreground background offset size? :=
    entering (.composite foreground background offset size?)
      (b.composite foreground background offset size?)
  write image path := entering (.write image path) (b.write image path)

end Backend
end StampGrid
