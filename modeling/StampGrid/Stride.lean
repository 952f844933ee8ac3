import StampGrid.Fault

/-!
# Strides

A stride is a finite arithmetic progression of integers: it starts at `start`,
moves by `step`, which is never zero, and ends before the first value that is
not before `stop` in the direction of the step. The three numbers have 64 bits;
the values between them are computed as exact integers, so no sum can wrap.
-/
namespace StampGrid

structure Stride where
  start : Int64
  stop : Int64
  step : Int64
  step_ne_zero : step ≠ 0
  deriving DecidableEq, Repr

namespace Stride

/-- The stride with these numbers. A zero step is refused with the bounds as its name. -/
def make (start stop step : Int64) : Except Fault Stride :=
  if h : step = 0 then
    let bounds := Text.Numeral.ofInt start.toInt ++ ['.', '.'] ++ Text.Numeral.ofInt stop.toInt
    .error (.zeroStep (String.ofList bounds))
  else .ok ⟨start, stop, step, h⟩

/-- The stride that ends only at the limit of 64 bits in the direction of the step. -/
def unbounded (start step : Int64) : Except Fault Stride :=
  make start (if step < 0 then Int64.minValue else Int64.maxValue) step

/-- Whether `v` lies before the stop in the direction of the step. -/
def before (s : Stride) (v : Int) : Bool :=
  if 0 < s.step.toInt then v < s.stop.toInt else s.stop.toInt < v

/-- How many values the stride still has when it stands at `v`. -/
def lengthFrom (s : Stride) (v : Int) : Nat :=
  let span := if 0 < s.step.toInt then s.stop.toInt - v else v - s.stop.toInt
  let size := s.step.toInt.natAbs
  (span.toNat + size - 1) / size

def length (s : Stride) : Nat := s.lengthFrom s.start.toInt

/-- The number itself, if a signed number of 128 bits holds it. -/
def wide? (v : Int) : Option Int :=
  if (BitVec.intMin 128).toInt ≤ v ∧ v ≤ (BitVec.intMax 128).toInt then some v else none

/-- How many values the stride still has at `v`, counted in signed numbers of 128
bits and told in one of 64 bits without a sign. There is no answer where a number
on the way, or the last one, does not fit. -/
def countFrom? (s : Stride) (v : Int64) : Option Nat := do
  let span ← wide? (s.stop.toInt - v.toInt)
  if span = 0 ∨ ¬(0 < span ↔ 0 < s.step.toInt) then pure 0
  else
    let span ← wide? span.natAbs
    let size ← wide? s.step.toInt.natAbs
    let sum ← wide? (span + size)
    let dividend ← wide? (sum - 1)
    let quotient ← wide? (dividend.tdiv size)
    if 0 ≤ quotient ∧ quotient < UInt64.size then pure quotient.toNat else none

def isEmpty (s : Stride) : Bool := s.length == 0

def contains (s : Stride) (v : Int) : Bool :=
  let ahead := if 0 < s.step.toInt then s.start.toInt ≤ v else v ≤ s.start.toInt
  ahead && s.before v && (v - s.start.toInt) % s.step.toInt == 0

theorem step_toInt_ne_zero (s : Stride) : s.step.toInt ≠ 0 := fun h =>
  s.step_ne_zero (Int64.toInt_inj.mp h)

theorem before_iff (s : Stride) (v : Int) :
    s.before v = true ↔
      (0 < s.step.toInt ∧ v < s.stop.toInt) ∨ (s.step.toInt < 0 ∧ s.stop.toInt < v) := by
  have := s.step_toInt_ne_zero
  simp only [before]
  split <;> simp only [decide_eq_true_eq] <;> omega

/-- Nothing is left at a value that is not before the stop. -/
theorem lengthFrom_eq_zero (s : Stride) {v : Int} (h : s.before v = false) :
    s.lengthFrom v = 0 := by
  have hs := s.step_toInt_ne_zero
  have hb : ¬ s.before v = true := by simp [h]
  rw [before_iff] at hb
  simp only [lengthFrom]
  rw [show (if 0 < s.step.toInt then s.stop.toInt - v else v - s.stop.toInt).toNat = 0 by
    split <;> omega]
  apply Nat.div_eq_of_lt
  omega

/-- A value before the stop is one of those left; the others follow one step further. -/
theorem lengthFrom_of_before (s : Stride) {v : Int} (h : s.before v = true) :
    s.lengthFrom v = s.lengthFrom (v + s.step.toInt) + 1 := by
  have hs := s.step_toInt_ne_zero
  rw [before_iff] at h
  simp only [lengthFrom]
  generalize hm : (if 0 < s.step.toInt then s.stop.toInt - v else v - s.stop.toInt).toNat = m
  generalize hk : s.step.toInt.natAbs = k
  have hrest : (if 0 < s.step.toInt then s.stop.toInt - (v + s.step.toInt)
      else v + s.step.toInt - s.stop.toInt).toNat = m - k := by
    subst hm hk; split <;> omega
  have hpos : 0 < m := by subst hm; split <;> omega
  have hk0 : 0 < k := by omega
  rw [hrest, ← Nat.add_div_right _ hk0]
  by_cases hle : m ≤ k
  · rw [show m - k + k - 1 + k = k - 1 + k by omega, show m + k - 1 = m - 1 + k by omega,
      Nat.add_div_right _ hk0, Nat.add_div_right _ hk0, Nat.div_eq_of_lt (by omega),
      Nat.div_eq_of_lt (by omega)]
  · rw [show m - k + k - 1 + k = m + k - 1 by omega]

end Stride
end StampGrid
