import Mathlib.Tactic
import StampGrid.Stride.Walk

/-!
# The values of a stride

The values of a stride are numbered from zero. Those that lie before the stop
are the first ones, as many as the length says, and a walk gives them in this
order. Value `n` is an exact integer; it fits in 64 bits as long as it lies
before the stop, so a walk meets the limit of 64 bits only behind its last value.
-/
namespace StampGrid

theorem exists_fit? {v : ℤ} (h : Int64.minValue.toInt ≤ v ∧ v ≤ Int64.maxValue.toInt) :
    ∃ p, fit? v = some p ∧ p.toInt = v := by
  cases hf : fit? v with
  | none => rw [fit?_eq_none_iff] at hf; omega
  | some p => exact ⟨p, rfl, toInt_of_fit? hf⟩

namespace Stride

/-- Value number `n`, wherever the stop is. -/
def value (s : Stride) (n : ℕ) : ℤ := s.start.toInt + s.step.toInt * n

variable (s : Stride)

@[simp] theorem value_zero : s.value 0 = s.start.toInt := by simp [value]

theorem value_succ (n : ℕ) : s.value (n + 1) = s.value n + s.step.toInt := by
  simp only [value, Nat.cast_succ, mul_add, mul_one, add_assoc]

theorem value_injective : Function.Injective s.value := by
  intro m n h
  have hmul : s.step.toInt * m = s.step.toInt * n := by simpa [value] using h
  exact_mod_cast mul_left_cancel₀ s.step_toInt_ne_zero hmul

/-- A step never leads back before the stop. -/
theorem before_of_before_add_step {v : ℤ} (h : s.before (v + s.step.toInt) = true) :
    s.before v = true := by
  rw [before_iff] at *
  omega

theorem before_iff_lengthFrom_pos {v : ℤ} : s.before v = true ↔ 0 < s.lengthFrom v := by
  constructor
  · intro h
    rw [s.lengthFrom_of_before h]
    exact Nat.succ_pos _
  · intro h
    by_contra hb
    rw [s.lengthFrom_eq_zero (by simpa using hb)] at h
    exact h.false

/-- From value `n` on, `n` fewer are left. -/
theorem lengthFrom_value (n : ℕ) : s.lengthFrom (s.value n) = s.length - n := by
  induction n with
  | zero => simp [length]
  | succ n ih =>
    by_cases h : s.before (s.value n) = true
    · have hleft := s.lengthFrom_of_before h
      rw [value_succ]
      omega
    · have hstop := s.lengthFrom_eq_zero (by simpa using h)
      have hstop' : s.lengthFrom (s.value (n + 1)) = 0 := by
        apply s.lengthFrom_eq_zero
        rw [value_succ, ← Bool.not_eq_true]
        exact fun h' => h (s.before_of_before_add_step h')
      omega

theorem before_value_iff (n : ℕ) : s.before (s.value n) = true ↔ n < s.length := by
  rw [before_iff_lengthFrom_pos, lengthFrom_value]
  omega

/-- A value before the stop lies between the start and the stop. -/
theorem value_bounds {n : ℕ} (h : s.before (s.value n) = true) :
    Int64.minValue.toInt ≤ s.value n ∧ s.value n ≤ Int64.maxValue.toInt := by
  have hstart := And.intro s.start.minValue_le_toInt s.start.toInt_le
  have hstop := And.intro s.stop.minValue_le_toInt s.stop.toInt_le
  rw [before_iff] at h
  have hvalue : s.value n = s.start.toInt + s.step.toInt * n := rfl
  obtain ⟨hstep, h⟩ | ⟨hstep, h⟩ := h
  · have : 0 ≤ s.step.toInt * n := by positivity
    omega
  · have : s.step.toInt * n ≤ 0 := mul_nonpos_of_nonpos_of_nonneg hstep.le (by positivity)
    omega

/-- The walk that has given the first `n` values. -/
def walkFrom (n : ℕ) : Walk := ⟨s, fit? (s.value n)⟩

@[simp] theorem walkFrom_zero : s.walkFrom 0 = s.walk := by simp [walkFrom, walk]

theorem next?_walkFrom (n : ℕ) :
    (s.walkFrom n).next? = if n < s.length then some (s.value n, s.walkFrom (n + 1)) else none := by
  by_cases h : s.before (s.value n) = true
  · obtain ⟨p, hp, hval⟩ := exists_fit? (s.value_bounds h)
    rw [if_pos ((s.before_value_iff n).mp h)]
    simp [walkFrom, Walk.next?, hp, hval, h, value_succ]
  · rw [if_neg (mt (s.before_value_iff n).mpr h), Walk.next?_eq_none_iff]
    cases hf : fit? (s.value n) with
    | none => simp [walkFrom, Walk.remaining, hf]
    | some p =>
      have hstop := s.lengthFrom_eq_zero (by simpa using h)
      simp [walkFrom, Walk.remaining, hf, toInt_of_fit? hf, hstop]

end Stride
end StampGrid
