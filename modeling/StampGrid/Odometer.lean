import StampGrid.Axis
import StampGrid.Stride.Walk

/-!
# The odometer

The coordinates of a grid come one at a time, as on an odometer: each axis is a
wheel, the last axis turns fastest, and a wheel that has shown its last value
goes back to its first while the wheel to its left moves on. Nothing is listed
in advance, so a grid may have more coordinates than could ever be stored.
-/
namespace StampGrid

/-- An axis that shows one of its values. -/
structure Wheel where
  axis : Axis
  /-- The walk over the axis, behind the value shown. -/
  walk : Walk
  value : Int

namespace Wheel

/-- The wheel of an axis, showing the first value. An empty axis has no wheel. -/
def start? (a : Axis) : Option Wheel := a.stride.walk.next?.map fun (v, walk) => ⟨a, walk, v⟩

/-- Goes on to the next value, if there is one. -/
def next? (w : Wheel) : Option Wheel :=
  w.walk.next?.map fun (v, walk) => { w with walk, value := v }

/-- What comes of turning a row of wheels. -/
inductive Turn where
  /-- One wheel went on, and all wheels behind it are back at their first values. -/
  | moved (ws : List Wheel)
  /-- All wheels are back at their first values. -/
  | wrapped (ws : List Wheel)
  /-- A wheel had to go back to its first value and has none. -/
  | stuck

/-- Turns the last wheel that still can, and starts all wheels behind it afresh. -/
def turn : List Wheel → Turn
  | [] => .wrapped []
  | w :: ws =>
    match turn ws with
    | .moved ws' => .moved (w :: ws')
    | .stuck => .stuck
    | .wrapped ws' =>
      match w.next? with
      | some w' => .moved (w' :: ws')
      | none =>
        match start? w.axis with
        | some w' => .wrapped (w' :: ws')
        | none => .stuck

/-- The number of coordinates behind the one shown. -/
def ahead : List Wheel → Nat
  | [] => 0
  | w :: ws => w.walk.remaining * Axis.gridSize (ws.map axis) + ahead ws

def reading (ws : List Wheel) : Coordinate := ⟨ws.map fun w => (w.axis.name, w.value)⟩

theorem remaining_of_start? {a : Axis} {w : Wheel} (h : start? a = some w) :
    a.stride.length = w.walk.remaining + 1 ∧ w.axis = a := by
  obtain ⟨⟨v, walk⟩, hw, rfl⟩ := Option.map_eq_some_iff.mp h
  rw [← Walk.remaining_walk]
  exact ⟨Walk.remaining_of_next? hw, rfl⟩

theorem length_of_start?_eq_none {a : Axis} (h : start? a = none) : a.stride.length = 0 := by
  rw [← Walk.remaining_walk]
  exact (Walk.next?_eq_none_iff _).mp (Option.map_eq_none_iff.mp h)

theorem remaining_of_next? {w w' : Wheel} (h : w.next? = some w') :
    w.walk.remaining = w'.walk.remaining + 1 ∧ w'.axis = w.axis := by
  obtain ⟨⟨v, walk⟩, hw, rfl⟩ := Option.map_eq_some_iff.mp h
  exact ⟨Walk.remaining_of_next? hw, rfl⟩

theorem remaining_of_next?_eq_none {w : Wheel} (h : w.next? = none) : w.walk.remaining = 0 :=
  (Walk.next?_eq_none_iff _).mp (Option.map_eq_none_iff.mp h)

/-- Behind the first coordinate of a grid come all the others. -/
theorem ahead_of_start? {axes : List Axis} {ws : List Wheel} (h : axes.mapM start? = some ws) :
    Axis.gridSize axes = ahead ws + 1 ∧ ws.map axis = axes := by
  induction axes generalizing ws with
  | nil =>
    obtain rfl := by simpa using h
    exact ⟨rfl, rfl⟩
  | cons a axes ih =>
    simp only [List.mapM_cons, Option.bind_eq_bind, Option.bind_eq_some_iff] at h
    obtain ⟨w, hw, ws, hws, h⟩ := h
    obtain rfl := by simpa using h
    obtain ⟨hlength, haxis⟩ := remaining_of_start? hw
    obtain ⟨hsize, haxes⟩ := ih hws
    refine ⟨?_, by simp [haxis, haxes]⟩
    simp only [Axis.gridSize, ahead, haxes, hlength, Nat.add_mul, hsize, Nat.one_mul]
    omega

theorem gridSize_of_start?_eq_none {axes : List Axis} (h : axes.mapM start? = none) :
    Axis.gridSize axes = 0 := by
  induction axes with
  | nil => simp at h
  | cons a axes ih =>
    simp only [Axis.gridSize]
    cases ha : start? a with
    | none => simp [length_of_start?_eq_none ha]
    | some w =>
      have hrest : axes.mapM start? = none := by
        cases hws : axes.mapM start? with
        | none => rfl
        | some ws => simp [List.mapM_cons, ha, hws] at h
      simp [ih hrest]

/-- What a turn does to the number of coordinates ahead, whatever the wheels show:
a move uses up one, and a turn without a move means that none was left. -/
theorem ahead_turn (ws : List Wheel) :
    match turn ws with
    | .moved ws' => ahead ws = ahead ws' + 1 ∧ ws'.map axis = ws.map axis
    | .wrapped ws' => ahead ws = 0 ∧ (ws.map axis).mapM start? = some ws'
    | .stuck => ahead ws = 0 ∧ Axis.gridSize (ws.map axis) = 0 := by
  induction ws with
  | nil => exact ⟨rfl, by simp⟩
  | cons w ws ih =>
    simp only [turn]
    generalize turn ws = t at ih
    match t with
    | .moved ws' =>
      obtain ⟨hahead, haxes⟩ := ih
      refine ⟨?_, by simp [haxes]⟩
      simp only [ahead, haxes, hahead]
      omega
    | .stuck =>
      obtain ⟨hahead, hsize⟩ := ih
      simp [ahead, Axis.gridSize, hahead, hsize]
    | .wrapped ws' =>
      obtain ⟨hahead, hstart⟩ := ih
      obtain ⟨hsize, haxes⟩ := ahead_of_start? hstart
      simp only
      cases hn : w.next? with
      | some w' =>
        obtain ⟨hleft, haxis⟩ := remaining_of_next? hn
        refine ⟨?_, by simp [haxis, haxes]⟩
        simp only [ahead, hahead, haxes, hleft, Nat.add_mul, Nat.one_mul, hsize]
        omega
      | none =>
        have hleft := remaining_of_next?_eq_none hn
        cases hs : start? w.axis with
        | some w' => simp [ahead, hahead, hleft, List.mapM_cons, hs, hstart]
        | none => simp [ahead, hahead, hleft, Axis.gridSize, length_of_start?_eq_none hs]

end Wheel

inductive Odometer where
  | fresh (axes : List Axis)
  /-- The wheels show the last coordinate given. -/
  | running (wheels : List Wheel)
  | done

namespace Odometer

def start (axes : List Axis) : Odometer := fresh axes

/-- The next coordinate, if there is one, and the pass behind it. -/
def next? : Odometer → Option Coordinate × Odometer
  | done => (none, done)
  | fresh axes =>
    match axes.mapM Wheel.start? with
    | some ws => (some (Wheel.reading ws), running ws)
    | none => (none, done)
  | running ws =>
    match Wheel.turn ws with
    | .moved ws' => (some (Wheel.reading ws'), running ws')
    | .wrapped _ | .stuck => (none, done)

/-- The number of coordinates not given yet. -/
def remaining : Odometer → Nat
  | done => 0
  | fresh axes => Axis.gridSize axes
  | running ws => Wheel.ahead ws

/-- Every coordinate given uses up one, and none is given only when none is left. -/
theorem remaining_next? (o : Odometer) :
    match o.next? with
    | (some _, o') => o.remaining = o'.remaining + 1
    | (none, o') => o.remaining = 0 ∧ o' = done := by
  cases o with
  | done => exact ⟨rfl, rfl⟩
  | fresh axes =>
    simp only [next?]
    cases h : axes.mapM Wheel.start? with
    | some ws => exact (Wheel.ahead_of_start? h).1
    | none => exact ⟨Wheel.gridSize_of_start?_eq_none h, rfl⟩
  | running ws =>
    have h := Wheel.ahead_turn ws
    simp only [next?]
    generalize Wheel.turn ws = t at h
    cases t with
    | moved ws' => exact h.1
    | wrapped ws' => exact ⟨h.1, rfl⟩
    | stuck => exact ⟨h.1, rfl⟩

theorem remaining_of_next? {o o' : Odometer} {c : Coordinate} (h : o.next? = (some c, o')) :
    o.remaining = o'.remaining + 1 := by
  have := remaining_next? o
  rwa [h] at this

/-- Up to `n` coordinates, in order, and the pass behind them. -/
def take : Nat → Odometer → List Coordinate × Odometer
  | 0, o => ([], o)
  | n + 1, o =>
    match o.next? with
    | (none, o') => ([], o')
    | (some c, o') =>
      let (cs, o'') := take n o'
      (c :: cs, o'')

def finished : Odometer := done

/-- Folds the coordinates of a pass in order; each is asked for only when the
one before it has been dealt with. -/
@[specialize] def foldM {m : Type → Type} [Monad m] {β : Type}
    (f : β → Coordinate → m β) (acc : β) (o : Odometer) : m β :=
  match _h : o.next? with
  | (none, _) => pure acc
  | (some c, o') => do
    let acc ← f acc c
    foldM f acc o'
termination_by o.remaining
decreasing_by rw [remaining_of_next? _h]; exact Nat.lt_succ_self _

end Odometer
end StampGrid
