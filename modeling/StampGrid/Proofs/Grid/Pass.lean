import StampGrid.Odometer
import StampGrid.Proofs.Grid.Numbering

/-!
# What a pass over a grid gives

After a number of calls the wheels of an odometer show the coordinate whose
number is one less. Turning the wheels adds one to the number they show, with
the carry going from the last wheel to the first. A pass therefore gives the
coordinates by their numbers, and nothing more once all have been given.
-/
namespace StampGrid
namespace Wheel
open Axis

/-- The wheel of an axis that shows value number `d`. -/
def showing (a : Axis) (d : ℕ) : Wheel := ⟨a, a.stride.walkFrom (d + 1), a.stride.value d⟩

theorem start?_eq (a : Axis) :
    start? a = if 0 < a.stride.length then some (showing a 0) else none := by
  rw [start?, ← Stride.walkFrom_zero, Stride.next?_walkFrom]
  split <;> rfl

theorem next?_showing (a : Axis) (d : ℕ) :
    (showing a d).next? = if d + 1 < a.stride.length then some (showing a (d + 1)) else none := by
  simp only [next?, showing, Stride.next?_walkFrom]
  split <;> rfl

/-- The wheels that show coordinate number `k`. -/
def wheels (axes : List Axis) (k : ℕ) : List Wheel := List.zipWith showing axes (digits axes k)

theorem reading_wheels (axes : List Axis) (k : ℕ) :
    reading (wheels axes k) = coordinate axes k := by
  simp only [reading, wheels, coordinate, pick, List.map_zipWith, showing]

theorem wheels_cons {a : Axis} (axes : List Axis) {q r : ℕ} (hq : q < a.stride.length)
    (hr : r < gridSize axes) :
    wheels (a :: axes) (q * gridSize axes + r) = showing a q :: wheels axes r := by
  have hdiv : (q * gridSize axes + r) / gridSize axes = q := by
    rw [Nat.mul_comm, Nat.mul_add_div (by omega), Nat.div_eq_of_lt hr, Nat.add_zero]
  rw [wheels, digits, hdiv, Nat.mod_eq_of_lt hq, Nat.add_comm, digits_add_mul_gridSize]
  rfl

theorem wheels_cons_zero {a : Axis} {axes : List Axis} (ha : 0 < a.stride.length)
    (hrest : 0 < gridSize axes) : wheels (a :: axes) 0 = showing a 0 :: wheels axes 0 := by
  have h := wheels_cons axes ha hrest
  rwa [Nat.zero_mul, Nat.zero_add] at h

/-- The wheels start at the first coordinate if the grid has one. -/
theorem mapM_start? (axes : List Axis) :
    axes.mapM start? = if 0 < gridSize axes then some (wheels axes 0) else none := by
  induction axes with
  | nil => rfl
  | cons a axes ih =>
    rw [List.mapM_cons, start?_eq, ih]
    by_cases ha : 0 < a.stride.length
    · by_cases hrest : 0 < gridSize axes
      · have hsize : 0 < gridSize (a :: axes) := Nat.mul_pos ha hrest
        rw [if_pos ha, if_pos hrest, if_pos hsize, wheels_cons_zero ha hrest]
        rfl
      · have hsize : ¬ 0 < gridSize (a :: axes) := fun h => hrest (Nat.pos_of_mul_pos_left h)
        rw [if_pos ha, if_neg hrest, if_neg hsize]
        rfl
    · have hsize : ¬ 0 < gridSize (a :: axes) := fun h => ha (Nat.pos_of_mul_pos_right h)
      rw [if_neg ha, if_neg hsize]
      rfl

/-- A turn adds one; from the last coordinate it leads back to the first. -/
theorem turn_wheels {axes : List Axis} {k : ℕ} (hk : k < gridSize axes) :
    turn (wheels axes k) =
      if k + 1 < gridSize axes then .moved (wheels axes (k + 1)) else .wrapped (wheels axes 0) := by
  induction axes generalizing k with
  | nil =>
    obtain rfl : k = 0 := by simpa [gridSize] using hk
    rfl
  | cons a axes ih =>
    have hpos : 0 < gridSize axes := Nat.pos_of_mul_pos_left (Nat.zero_lt_of_lt hk)
    obtain ⟨q, r, hq, hr, rfl⟩ : ∃ q r, q < a.stride.length ∧ r < gridSize axes ∧
        k = q * gridSize axes + r :=
      ⟨k / gridSize axes, k % gridSize axes, (Nat.div_lt_iff_lt_mul hpos).mpr hk,
        Nat.mod_lt _ hpos, (Nat.div_add_mod' _ _).symm⟩
    have hnext : (q + 1) * gridSize axes = q * gridSize axes + gridSize axes := Nat.succ_mul _ _
    have hle : (q + 1) * gridSize axes ≤ gridSize (a :: axes) := Nat.mul_le_mul_right _ hq
    rw [wheels_cons axes hq hr, turn, ih hr]
    by_cases hr' : r + 1 < gridSize axes
    · rw [if_pos hr', if_pos (by omega), Nat.add_assoc, wheels_cons axes hq hr']
    · rw [if_neg hr', next?_showing]
      have hcarry : q * gridSize axes + r + 1 = (q + 1) * gridSize axes + 0 := by omega
      by_cases hq' : q + 1 < a.stride.length
      · have hlt : (q + 1) * gridSize axes + 0 < gridSize (a :: axes) :=
          Nat.mul_lt_mul_of_pos_right hq' hpos
        rw [if_pos hq', hcarry, if_pos hlt, wheels_cons axes hq' hpos]
      · have hsize : gridSize (a :: axes) = (q + 1) * gridSize axes := by
          rw [gridSize, show a.stride.length = q + 1 by omega]
        have ha : 0 < a.stride.length := Nat.zero_lt_of_lt hq
        have hstart : start? (showing a q).axis = some (showing a 0) := by
          rw [showing, start?_eq, if_pos ha]
        simp only [if_neg hq', hstart, wheels_cons_zero ha hpos]
        rw [if_neg (by omega)]

end Wheel

namespace Odometer
open Axis Wheel

/-- The pass after so many calls, whatever they gave. -/
def afterCalls : ℕ → Odometer → Odometer
  | 0, o => o
  | k + 1, o => afterCalls k o.next?.2

/-- Where a pass stands after `k` calls. -/
def behind (axes : List Axis) : ℕ → Odometer
  | 0 => start axes
  | k + 1 => if k < gridSize axes then running (wheels axes k) else done

/-- What one call gives and where it leads. -/
theorem next?_behind (axes : List Axis) (k : ℕ) :
    (behind axes k).next? =
      (if k < gridSize axes then some (coordinate axes k) else none, behind axes (k + 1)) := by
  cases k with
  | zero =>
    rw [behind, start, next?, mapM_start?]
    by_cases h : 0 < gridSize axes
    · simp only [if_pos h, reading_wheels, behind]
    · simp only [if_neg h, behind]
  | succ k =>
    by_cases hk : k < gridSize axes
    · rw [behind, if_pos hk, next?, turn_wheels hk]
      by_cases hk' : k + 1 < gridSize axes
      · simp only [if_pos hk', reading_wheels, behind]
      · simp only [if_neg hk', behind]
    · have hk' : ¬ k + 1 < gridSize axes := by omega
      rw [behind, if_neg hk, behind, if_neg hk', if_neg hk', next?]

@[simp] theorem remaining_behind (axes : List Axis) (k : ℕ) :
    (behind axes k).remaining = gridSize axes - k := by
  induction k with
  | zero => rfl
  | succ k ih =>
    have h := remaining_next? (behind axes k)
    rw [next?_behind, ih] at h
    by_cases hk : k < gridSize axes
    · simp only [if_pos hk] at h
      omega
    · simp only [if_neg hk] at h
      rw [h.2, remaining]
      omega

theorem take_behind (axes : List Axis) {j n : ℕ} (h : j + n ≤ gridSize axes) :
    ((behind axes j).take n).1 = (List.range' j n).map (coordinate axes) := by
  induction n generalizing j with
  | zero => rfl
  | succ n ih =>
    have hj : j < gridSize axes := by omega
    rw [take, next?_behind, if_pos hj, List.range'_succ, List.map_cons, ← ih (by omega)]

theorem afterCalls_behind (axes : List Axis) (j k : ℕ) :
    (behind axes j).afterCalls k = behind axes (j + k) := by
  induction k generalizing j with
  | zero => rfl
  | succ k ih => rw [afterCalls, next?_behind, ih, Nat.add_assoc, Nat.add_comm 1 k]

/-- The answer to call number `k` of a pass. -/
def answer (axes : List Axis) (k : ℕ) : Option Coordinate :=
  ((start axes).afterCalls k).next?.1

theorem answer_eq (axes : List Axis) (k : ℕ) :
    answer axes k = if k < gridSize axes then some (coordinate axes k) else none := by
  rw [answer, show start axes = behind axes 0 from rfl, afterCalls_behind, next?_behind,
    Nat.zero_add]

theorem answer_eq_some_iff (axes : List Axis) (k : ℕ) (c : Coordinate) :
    answer axes k = some c ↔ k < gridSize axes ∧ coordinate axes k = c := by
  rw [answer_eq]
  split <;> simp_all

/-- The coordinates of a pass from call `j` on, in order. -/
def coordinatesFrom (axes : List Axis) (j : ℕ) : List Coordinate :=
  (List.range' j (gridSize axes - j)).map (coordinate axes)

theorem foldM_of_none {m : Type → Type} [Monad m] {β : Type} {f : β → Coordinate → m β} {acc : β}
    {o o' : Odometer} (h : o.next? = (none, o')) : o.foldM f acc = pure acc := by
  rw [foldM]
  split <;> simp_all

theorem foldM_of_some {m : Type → Type} [Monad m] {β : Type} {f : β → Coordinate → m β} {acc : β}
    {o o' : Odometer} {c : Coordinate} (h : o.next? = (some c, o')) :
    o.foldM f acc = f acc c >>= fun acc => o'.foldM f acc := by
  rw [foldM]
  split <;> simp_all

theorem foldM_behind {m : Type → Type} [Monad m] {β : Type} (f : β → Coordinate → m β) (acc : β)
    (axes : List Axis) (j : ℕ) :
    (behind axes j).foldM f acc = (coordinatesFrom axes j).foldlM f acc := by
  generalize hn : gridSize axes - j = n
  induction n generalizing j acc with
  | zero =>
    have hj : ¬ j < gridSize axes := by omega
    have hnext := next?_behind axes j
    rw [if_neg hj] at hnext
    rw [foldM_of_none hnext, coordinatesFrom, hn]
    rfl
  | succ n ih =>
    have hj : j < gridSize axes := by omega
    have hnext := next?_behind axes j
    rw [if_pos hj] at hnext
    have hrest : coordinatesFrom axes j = coordinate axes j :: coordinatesFrom axes (j + 1) := by
      have hn' : gridSize axes - (j + 1) = n := by omega
      rw [coordinatesFrom, coordinatesFrom, hn, hn', List.range'_succ, List.map_cons]
    rw [foldM_of_some hnext, hrest, List.foldlM_cons]
    exact bind_congr fun acc => ih acc (j + 1) (by omega)

/-- Folding a pass is folding the list of its coordinates. -/
theorem foldM_start {m : Type → Type} [Monad m] {β : Type} (f : β → Coordinate → m β) (acc : β)
    (axes : List Axis) :
    (start axes).foldM f acc =
      ((List.range (gridSize axes)).map (coordinate axes)).foldlM f acc := by
  rw [show start axes = behind axes 0 from rfl, foldM_behind, coordinatesFrom, Nat.sub_zero,
    ← List.range_eq_range']

/-- The odometer law. A pass gives the coordinates of the grid by their numbers,
as many as the product of the lengths, and then nothing more. A coordinate pairs
each axis with the value at a quotient of its number. Each coordinate of the grid
is given at exactly one call, and the calls go through the digits in lexicographic
order, the first axis slowest. -/
theorem answer_odometer (axes : List Axis) :
    (∀ a ∈ axes, ∀ n, a.stride.before (a.stride.value n) = true ↔ n < a.stride.length) ∧
    gridSize axes = (axes.map fun a => a.stride.length).prod ∧
    (∀ k < gridSize axes, answer axes k = some (coordinate axes k)) ∧
    (∀ k, (coordinate axes k).pairs.length = axes.length) ∧
    (∀ k i (hi : i < axes.length), (coordinate axes k).pairs[i]? =
      some (axes[i].name, axes[i].stride.start.toInt + axes[i].stride.step.toInt *
        (k / ((axes.drop (i + 1)).map fun a => a.stride.length).prod %
          axes[i].stride.length : ℕ))) ∧
    (∀ k, gridSize axes ≤ k → answer axes k = none) ∧
    (∀ c, Spans axes c ↔ ∃! k, answer axes k = some c) ∧
    (∀ j k, j < k → k < gridSize axes → digits axes j < digits axes k) := by
  refine ⟨fun a _ n => a.stride.before_value_iff n, gridSize_eq_prod axes, fun k hk => ?_,
    length_coordinate axes, fun k i hi => getElem?_coordinate k hi, fun k hk => ?_, fun c => ?_,
    fun j k => digits_lt_digits⟩
  · rw [answer_eq, if_pos hk]
  · rw [answer_eq, if_neg (Nat.not_lt.mpr hk)]
  · simp only [answer_eq_some_iff]
    exact spans_iff axes c

end Odometer
end StampGrid
