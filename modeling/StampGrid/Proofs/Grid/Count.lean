import StampGrid.Proofs.Grid.Pass

/-!
# Counting without a pass

The count multiplies the lengths from the outermost axis inwards and gives up at
the first product that needs more than 64 bits. A pass stops before its first
coordinate when any axis is empty. The two agree unless an empty axis comes too
late to keep the product small: then the count gives up on a pass that gives nothing.
-/
namespace StampGrid.Axis
open Odometer

/-- A pass over the grid gives `n` coordinates. -/
def Yields (axes : List Axis) (n : ℕ) : Prop := ∀ k, (answer axes k).isSome ↔ k < n

/-- The count is the number of coordinates that a pass gives if that fits in 64
bits, and is none if it does not. -/
def CountAgrees (axes : List Axis) : Prop :=
  (∀ n, count? axes = some n ↔ Yields axes n ∧ n < UInt64.size) ∧
    (count? axes = none ↔ ∀ n, Yields axes n → UInt64.size ≤ n)

/-- The outermost axes always span grids with a size of 64 bits. -/
def PrefixesFit (axes : List Axis) : Prop := ∀ m, gridSize (axes.take m) < UInt64.size

theorem yields_iff {axes : List Axis} {n : ℕ} : Yields axes n ↔ n = gridSize axes := by
  have hsome (k : ℕ) : (answer axes k).isSome ↔ k < gridSize axes := by
    rw [answer_eq]
    split <;> simp_all
  simp only [Yields, hsome]
  constructor
  · intro h
    exact Nat.le_antisymm (Nat.not_lt.mp fun hlt => absurd ((h _).mpr hlt) (lt_irrefl _))
      (Nat.not_lt.mp fun hlt => absurd ((h _).mp hlt) (lt_irrefl _))
  · rintro rfl k
    exact Iff.rfl

theorem gridSize_perm {axes axes' : List Axis} (h : axes.Perm axes') :
    gridSize axes = gridSize axes' := by
  rw [gridSize_eq_prod, gridSize_eq_prod]
  exact (h.map _).prod_eq

theorem gridSize_eq_zero_iff {axes : List Axis} :
    gridSize axes = 0 ↔ ∃ a ∈ axes, a.stride.length = 0 := by
  rw [gridSize_eq_prod, List.prod_eq_zero_iff, List.mem_map]

theorem gridSize_take_le {axes : List Axis} (h : 0 < gridSize axes) (m : ℕ) :
    gridSize (axes.take m) ≤ gridSize axes := by
  have hsplit : gridSize axes = gridSize (axes.take m) * gridSize (axes.drop m) := by
    simp only [gridSize_eq_prod, List.map_take, List.map_drop, List.prod_take_mul_prod_drop]
  rw [hsplit] at h ⊢
  exact Nat.le_mul_of_pos_right _ (Nat.pos_of_mul_pos_left h)

theorem prefixesFit_iff_of_pos {axes : List Axis} (h : 0 < gridSize axes) :
    PrefixesFit axes ↔ gridSize axes < UInt64.size := by
  constructor
  · intro hfit
    have hall := hfit axes.length
    rwa [List.take_length] at hall
  · intro hsize m
    exact (gridSize_take_le h m).trans_lt hsize

/-- The fold from a product `n` on: it ends with the whole product if no product on
the way leaves the 64 bits. -/
theorem foldlM_eq_some_iff {axes : List Axis} {n r : ℕ} (hn : n < UInt64.size) :
    axes.foldlM (fun n a =>
        if n * a.stride.length < UInt64.size then some (n * a.stride.length) else none) n = some r ↔
      (∀ m, n * gridSize (axes.take m) < UInt64.size) ∧ n * gridSize axes = r := by
  induction axes generalizing n with
  | nil => simpa [gridSize] using fun _ => hn
  | cons a axes ih =>
    have hlead : (∀ m, n * gridSize ((a :: axes).take m) < UInt64.size) ↔
        ∀ m, n * a.stride.length * gridSize (axes.take m) < UInt64.size := by
      constructor
      · intro h m
        simpa [gridSize, mul_assoc] using h (m + 1)
      · rintro h (_ | m)
        · simpa [gridSize] using hn
        · simpa [gridSize, mul_assoc] using h m
    rw [hlead, List.foldlM_cons, gridSize, ← mul_assoc]
    by_cases hfit : n * a.stride.length < UInt64.size
    · rw [if_pos hfit]
      exact ih hfit
    · rw [if_neg hfit]
      refine iff_of_false (by simp) fun h => hfit ?_
      simpa [gridSize] using h.1 0

theorem count?_eq_some_iff {axes : List Axis} {n : ℕ} :
    count? axes = some n ↔ PrefixesFit axes ∧ gridSize axes = n := by
  rw [count?, foldlM_eq_some_iff (by decide)]
  simp only [one_mul, PrefixesFit]

theorem count?_eq_none_iff {axes : List Axis} : count? axes = none ↔ ¬ PrefixesFit axes := by
  rw [Option.eq_none_iff_forall_ne_some]
  simp only [ne_eq, count?_eq_some_iff]
  constructor
  · intro h hfit
    exact h _ ⟨hfit, rfl⟩
  · rintro h n ⟨hfit, -⟩
    exact h hfit

theorem countAgrees_of_iff {axes : List Axis} (h : PrefixesFit axes ↔ gridSize axes < UInt64.size) :
    CountAgrees axes := by
  constructor
  · intro n
    rw [count?_eq_some_iff, yields_iff, h]
    constructor
    · rintro ⟨hsize, rfl⟩
      exact ⟨rfl, hsize⟩
    · rintro ⟨rfl, hsize⟩
      exact ⟨hsize, rfl⟩
  · simp only [count?_eq_none_iff, yields_iff, h, Nat.not_lt, forall_eq]

theorem countAgrees_iff_prefixesFit (axes : List Axis) :
    CountAgrees axes ↔ (gridSize axes = 0 → PrefixesFit axes) := by
  constructor
  · intro h hempty
    exact (count?_eq_some_iff.mp ((h.1 0).mpr ⟨yields_iff.mpr hempty.symm, by decide⟩)).1
  · intro h
    apply countAgrees_of_iff
    rcases Nat.eq_zero_or_pos (gridSize axes) with hempty | hpos
    · exact iff_of_true (h hempty) (by rw [hempty]; decide)
    · exact prefixesFit_iff_of_pos hpos

/-- The order of axes that all have values does not change the count. -/
theorem count?_perm {axes axes' : List Axis} (hpos : 0 < gridSize axes)
    (hperm : axes'.Perm axes) : count? axes' = count? axes := by
  have hsize := gridSize_perm hperm
  apply Option.ext
  intro n
  rw [count?_eq_some_iff, count?_eq_some_iff, prefixesFit_iff_of_pos hpos,
    prefixesFit_iff_of_pos (hsize ▸ hpos), hsize]

/-- The count agrees with a pass exactly where the outermost axes fit in front of
an empty one. Elsewhere it gives up, although a pass gives nothing and ends. -/
theorem countAgrees_iff (axes : List Axis) :
    (CountAgrees axes ↔ ((∃ a ∈ axes, a.stride.length = 0) → PrefixesFit axes)) ∧
    (¬ CountAgrees axes → count? axes = none ∧ Yields axes 0) ∧
    (CountAgrees axes → (∃ a ∈ axes, a.stride.length = 0) → count? axes = some 0) ∧
    ((∀ a ∈ axes, a.stride.length ≠ 0) →
      ∀ axes', axes'.Perm axes → count? axes' = count? axes) := by
  have hagrees := countAgrees_iff_prefixesFit axes
  rw [← gridSize_eq_zero_iff]
  refine ⟨hagrees, ?_, ?_, ?_⟩
  · intro h
    rw [hagrees, Classical.not_imp] at h
    exact ⟨count?_eq_none_iff.mpr h.2, yields_iff.mpr h.1.symm⟩
  · intro h hempty
    exact count?_eq_some_iff.mpr ⟨hagrees.mp h hempty, hempty⟩
  · intro hfull axes' hperm
    refine count?_perm (Nat.pos_of_ne_zero fun hempty => ?_) hperm
    obtain ⟨a, ha, hlength⟩ := gridSize_eq_zero_iff.mp hempty
    exact hfull a ha hlength

/-- Two axes with more coordinates than 64 bits can count, and an empty axis behind them. -/
def emptyBehindLong : List Axis :=
  [⟨"x", ⟨0, Int64.maxValue, 1, by decide⟩⟩, ⟨"y", ⟨0, 4, 1, by decide⟩⟩,
    ⟨"z", ⟨0, 0, 1, by decide⟩⟩]

/-- The count gives up on a pass without coordinates. -/
theorem not_countAgrees_emptyBehindLong : ¬ CountAgrees emptyBehindLong := by
  intro h
  have hyields : Yields emptyBehindLong 0 := yields_iff.mpr (by decide +kernel)
  have hcount : count? emptyBehindLong = none := by decide +kernel
  have := (h.1 0).mpr ⟨hyields, by decide⟩
  rw [hcount] at this
  contradiction

end StampGrid.Axis
