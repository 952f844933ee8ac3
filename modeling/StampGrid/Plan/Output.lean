import StampGrid.Plan
import StampGrid.Text.Utf8

/-!
# Writing a plan

A plan may have more coordinates than could ever be listed, so its document is
written piece by piece: a coordinate is asked for only when the text of the one
before it has been taken. A sink takes octets until its room is used up; what
it takes of the piece that does not fit is the part that fits.
-/
namespace StampGrid

structure Sink where
  written : Array UInt8 := #[]
  /-- How many more octets are taken; without a number, any number. -/
  room? : Option Nat := none
  deriving DecidableEq, Repr

namespace Sink

/-- Takes as much of some octets as fits; tells whether that was all. -/
def write (s : Sink) (octets : List UInt8) : Bool × Sink :=
  match s.room? with
  | none => (true, { s with written := s.written ++ octets })
  | some room =>
    (octets.length ≤ room, ⟨s.written ++ octets.take room, some (room - octets.length)⟩)

end Sink

/-- How far the writing of a plan has come. -/
structure Progress where
  sink : Sink
  /-- The pass over the coordinates, behind those asked for. -/
  pass : Odometer
  asked : Nat := 0
  /-- Coordinates whose text was taken as a whole. -/
  finished : Nat := 0

namespace Progress

def ask (p : Progress) : Option Coordinate × Progress :=
  match p.pass.next? with
  | (some c, pass) => (some c, { p with pass, asked := p.asked + 1 })
  | (none, pass) => (none, { p with pass })

theorem remaining_of_ask {p p' : Progress} {c : Coordinate} (h : p.ask = (some c, p')) :
    p.pass.remaining = p'.pass.remaining + 1 := by
  simp only [ask] at h
  split at h
  · next c pass hnext =>
    obtain ⟨-, rfl⟩ := by simpa using h
    exact Odometer.remaining_of_next? hnext
  · simp at h

end Progress

/-- The sink took no more. -/
inductive Full where
  | full
  deriving DecidableEq, Repr

/-- Writing that stops when the sink is full. -/
abbrev Writing := ExceptT Full (StateM Progress)

namespace Writing

def put (text : List Char) : Writing Unit := fun p =>
  match p.sink.write (Text.Utf8.encode text) with
  | (true, sink) => (.ok (), { p with sink })
  | (false, sink) => (.error .full, { p with sink })

end Writing

namespace Plan

open Json

/-- The document up to the bracket before the coordinates. -/
def opening (p : Plan) (layout : Layout) : List Char :=
  '\x7b' :: layout.sequence 1 (renderMembers layout 1 p.members) ++
    layout.lead false 1 ++ quote "coordinates" ++ layout.colon ++ ['[']

/-- The document behind the last coordinate. -/
def closing (layout : Layout) (empty : Bool) : List Char :=
  (if empty then [] else layout.line 1) ++ [']'] ++ layout.line 0 ++ ['\x7d']

def writeCoordinate (layout : Layout) (first : Bool) (c : Coordinate) : Writing Unit := fun p =>
  match Writing.put (layout.lead first 2 ++ c.toJson.render layout 2) p with
  | (.ok (), p') => (.ok (), { p' with finished := p'.finished + 1 })
  | (.error .full, p') => (.error .full, p')

/-- Writing leaves the pass alone. -/
theorem pass_writeCoordinate (layout : Layout) (first : Bool) (c : Coordinate) (p : Progress) :
    (writeCoordinate layout first c p).2.pass = p.pass := by
  simp only [writeCoordinate, Writing.put]
  generalize p.sink.write _ = result
  obtain ⟨_ | _, sink⟩ := result <;> rfl

/-- Writes the coordinates that the pass still has, each asked for when the one before
it has been written. Tells whether none has been written at the end. -/
def writeCoordinates (layout : Layout) (first : Bool) (p : Progress) :
    Except Full Bool × Progress :=
  match _h : p.ask with
  | (none, p') => (.ok first, p')
  | (some c, p') =>
    match _hw : writeCoordinate layout first c p' with
    | (.ok (), p'') => writeCoordinates layout false p''
    | (.error .full, p'') => (.error .full, p'')
termination_by p.pass.remaining
decreasing_by
  have hpass := pass_writeCoordinate layout first c p'
  rw [_hw] at hpass
  rw [Progress.remaining_of_ask _h, hpass]
  exact Nat.lt_succ_self _

def writeAll (p : Plan) (layout : Layout) : Writing Unit := do
  Writing.put (p.opening layout)
  let empty ← (writeCoordinates layout true : Writing Bool)
  Writing.put (closing layout empty)

/-- Writes the document into a sink; tells whether the sink took all of it. -/
def write (p : Plan) (layout : Layout) (sink : Sink) : Bool × Progress :=
  match p.writeAll layout { sink, pass := Odometer.start p.axes } with
  | (.ok (), progress) => (true, progress)
  | (.error .full, progress) => (false, progress)

end Plan
end StampGrid
