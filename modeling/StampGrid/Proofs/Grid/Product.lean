import StampGrid.Proofs.Grid.Pass

/-!
# The coordinates of a product of grids

The axes of a grid may be cut in two rows, an outer and an inner one. Its coordinates
are those of the outer grid, each joined in turn with all those of the inner grid.
-/
namespace StampGrid.Axis

/-- All coordinates of a grid, in the order of their numbers. -/
def coordinates (axes : List Axis) : List Coordinate :=
  (List.range (gridSize axes)).map (coordinate axes)

/-- A coordinate of an outer grid and one of an inner grid. -/
def join (c c' : Coordinate) : Coordinate := ⟨c.pairs ++ c'.pairs⟩

@[simp] theorem length_coordinates (axes : List Axis) :
    (coordinates axes).length = gridSize axes := by
  rw [coordinates, List.length_map, List.length_range]

/-- The numbers below a product are gone through block by block. -/
theorem map_range_mul {α : Type} (f : ℕ → α) (m n : ℕ) :
    (List.range (m * n)).map f =
      (List.range m).flatMap fun d => (List.range n).map fun r => f (d * n + r) := by
  induction m with
  | zero => simp
  | succ m ih =>
    rw [Nat.succ_mul, List.range_add, List.map_append, ih, List.range_succ, List.flatMap_append,
      List.flatMap_singleton, List.map_map]
    rfl

theorem coordinate_cons_of_lt {a : Axis} {axes : List Axis} {d r : ℕ} (hd : d < a.stride.length)
    (hr : r < gridSize axes) :
    coordinate (a :: axes) (d * gridSize axes + r) =
      join ⟨[(a.name, a.stride.value d)]⟩ (coordinate axes r) := by
  have hdigit : (d * gridSize axes + r) / gridSize axes = d := by
    rw [Nat.mul_comm, Nat.mul_add_div (by omega), Nat.div_eq_of_lt hr, Nat.add_zero]
  have hinner : coordinate axes (d * gridSize axes + r) = coordinate axes r := by
    rw [coordinate, Nat.add_comm, digits_add_mul_gridSize, coordinate]
  have hpairs := coordinate_cons a axes (d * gridSize axes + r)
  rw [hdigit, Nat.mod_eq_of_lt hd, hinner] at hpairs
  exact congrArg Coordinate.mk hpairs

theorem coordinates_cons (a : Axis) (axes : List Axis) :
    coordinates (a :: axes) = (List.range a.stride.length).flatMap fun d =>
      (coordinates axes).map (join ⟨[(a.name, a.stride.value d)]⟩) := by
  rw [coordinates, gridSize, map_range_mul]
  apply List.flatMap_congr
  intro d hd
  rw [coordinates, List.map_map]
  apply List.map_congr_left
  intro r hr
  exact coordinate_cons_of_lt (List.mem_range.mp hd) (List.mem_range.mp hr)

/-- Each outer coordinate is followed through the whole inner grid. -/
theorem coordinates_append (outer inner : List Axis) :
    coordinates (outer ++ inner) =
      (coordinates outer).flatMap fun c => (coordinates inner).map (join c) := by
  induction outer with
  | nil => simp [coordinates, gridSize, coordinate, pick, join]
  | cons a outer ih =>
    rw [List.cons_append, coordinates_cons, coordinates_cons, ih, List.flatMap_assoc]
    simp only [List.map_flatMap, List.flatMap_map, List.map_map]
    rfl

end StampGrid.Axis
