import StampGrid.Stride

/-!
# Axes and coordinates

An axis is a named stride. A list of axes spans a grid: a coordinate of the grid
gives each axis one of its values, in the order of the axes. No axis at all
spans a grid with a single empty coordinate.
-/
namespace StampGrid

structure Axis where
  name : String
  stride : Stride
  deriving DecidableEq, Repr

/-- The value of each axis, outermost axis first. -/
structure Coordinate where
  pairs : List (String × Int)
  deriving DecidableEq, Repr

namespace Coordinate

/-- The value of the first axis with this name. -/
def get? (c : Coordinate) (name : String) : Option Int :=
  (c.pairs.find? fun p => p.1 = name).map Prod.snd

def size (c : Coordinate) : Nat := c.pairs.length

theorem get?_eq_some_iff {c : Coordinate} {name : String} {v : Int} :
    c.get? name = some v ↔
      ∃ before after, c.pairs = before ++ (name, v) :: after ∧ ∀ p ∈ before, p.1 ≠ name := by
  rw [get?, Option.map_eq_some_iff]
  constructor
  · rintro ⟨⟨first, _⟩, hfind, rfl⟩
    obtain ⟨hname, before, after, hpairs, hbefore⟩ := List.find?_eq_some_iff_append.mp hfind
    obtain rfl : first = name := by simpa using hname
    exact ⟨before, after, hpairs, by simpa using hbefore⟩
  · rintro ⟨before, after, hpairs, hbefore⟩
    refine ⟨(name, v), List.find?_eq_some_iff_append.mpr ⟨by simp, before, after, hpairs, ?_⟩, rfl⟩
    simpa using hbefore

theorem get?_eq_none_iff {c : Coordinate} {name : String} :
    c.get? name = none ↔ ∀ p ∈ c.pairs, p.1 ≠ name := by
  simp [get?]

end Coordinate

namespace Axis

/-- The exact number of coordinates of a grid. -/
def gridSize : List Axis → Nat
  | [] => 1
  | a :: axes => a.stride.length * gridSize axes

/-- The number of coordinates counted in 64 bits from the outermost axis inwards.
A product that does not fit ends the count, whatever axes follow. -/
def count? (axes : List Axis) : Option Nat :=
  axes.foldlM (fun n a =>
    if n * a.stride.length < UInt64.size then some (n * a.stride.length) else none) 1

end Axis
end StampGrid
