import Mathlib.Data.Set.Card
import StampGrid.Proofs.Stride.Values

/-!
# Five views of one stride

A stride can be walked, counted, asked for being empty and asked for a value, and a
walk tells at any time how much of it is left. Each is computed in a way of its own:
the walk adds numbers of 64 bits, the count divides numbers of 128 bits, the question
for a value looks at a remainder. They are compared with the values that lie before
the stop, numbered from zero.
-/
namespace StampGrid

namespace Stride

/-! ## Counting with limited numbers -/

theorem wide?_of_natAbs_le {v : ℤ} (h : v.natAbs ≤ 2 ^ 65) : wide? v = some v := by
  have hleast : (BitVec.intMin 128).toInt = -2 ^ 127 := rfl
  have hgreatest : (BitVec.intMax 128).toInt = 2 ^ 127 - 1 := rfl
  exact if_pos (by omega)

theorem natAbs_sub_lt (a b : Int64) : (a.toInt - b.toInt).natAbs < UInt64.size := by
  have ha := And.intro a.minValue_le_toInt a.toInt_le
  have hb := And.intro b.minValue_le_toInt b.toInt_le
  simp only [show Int64.minValue.toInt = -2 ^ 63 from rfl,
    show Int64.maxValue.toInt = 2 ^ 63 - 1 from rfl, UInt64.size] at *
  omega

theorem natAbs_toInt_le (a : Int64) : a.toInt.natAbs ≤ 2 ^ 63 := by
  have ha := And.intro a.minValue_le_toInt a.toInt_le
  simp only [show Int64.minValue.toInt = -2 ^ 63 from rfl,
    show Int64.maxValue.toInt = 2 ^ 63 - 1 from rfl] at ha
  omega

variable (s : Stride)

/-- The distance to the stop counts only when it has the direction of the step. -/
theorem lengthFrom_eq (v : ℤ) :
    s.lengthFrom v =
      if s.stop.toInt - v = 0 ∨ ¬(0 < s.stop.toInt - v ↔ 0 < s.step.toInt) then 0
      else ((s.stop.toInt - v).natAbs + s.step.toInt.natAbs - 1) / s.step.toInt.natAbs := by
  have hstep := s.step_toInt_ne_zero
  have hspan : (if 0 < s.step.toInt then s.stop.toInt - v else v - s.stop.toInt).toNat =
      if s.stop.toInt - v = 0 ∨ ¬(0 < s.stop.toInt - v ↔ 0 < s.step.toInt) then 0
      else (s.stop.toInt - v).natAbs := by
    split_ifs <;> omega
  simp only [lengthFrom, hspan]
  split_ifs
  · exact Nat.div_eq_of_lt (by omega)
  · rfl

/-- A stride has no more values than there are numbers between its start and its stop. -/
theorem lengthFrom_lt (v : Int64) : s.lengthFrom v.toInt < UInt64.size := by
  have hspan := natAbs_sub_lt s.stop v
  have hpos : 0 < s.step.toInt.natAbs := Int.natAbs_pos.mpr s.step_toInt_ne_zero
  rw [lengthFrom_eq]
  split_ifs with hnone
  · exact (Nat.zero_le _).trans_lt hspan
  · refine lt_of_le_of_lt ?_ hspan
    rw [Nat.div_le_iff_le_mul_add_pred hpos]
    have := Nat.le_mul_of_pos_left (s.stop.toInt - v.toInt).natAbs hpos
    omega

/-- Numbers of 128 bits are enough to count, and 64 bits hold the count. -/
theorem countFrom?_eq (v : Int64) : s.countFrom? v = some (s.lengthFrom v.toInt) := by
  have hspan : (s.stop.toInt - v.toInt).natAbs < 2 ^ 64 := natAbs_sub_lt s.stop v
  have hsize := natAbs_toInt_le s.step
  have hlength := s.lengthFrom_lt v
  rw [lengthFrom_eq] at hlength ⊢
  rw [countFrom?, wide?_of_natAbs_le (by omega)]
  generalize s.stop.toInt - v.toInt = span at hspan hlength ⊢
  simp only [Option.bind_eq_bind, Option.bind_some]
  split_ifs at hlength ⊢ with hnone
  · rfl
  generalize s.step.toInt.natAbs = k at hsize hlength ⊢
  generalize hn : span.natAbs = n at hspan hlength ⊢
  have hn0 : 0 < n := by omega
  have hdividend : (n : ℤ) + k - 1 = (n + k - 1 : ℕ) := by omega
  have hquotient : ((n + k - 1 : ℕ) : ℤ).tdiv k = ((n + k - 1) / k : ℕ) :=
    (Int.ofNat_tdiv _ _).symm
  generalize (n + k - 1) / k = q at hquotient hlength ⊢
  have hq : q < 2 ^ 64 := hlength
  rw [wide?_of_natAbs_le (by omega), Option.bind_some, wide?_of_natAbs_le (by omega),
    Option.bind_some, wide?_of_natAbs_le (by omega), Option.bind_some, hdividend,
    wide?_of_natAbs_le (by omega), Option.bind_some, hquotient, wide?_of_natAbs_le (by omega),
    Option.bind_some, if_pos ⟨Int.natCast_nonneg q, Int.ofNat_lt.mpr hlength⟩, Int.toNat_natCast]
  rfl

/-! ## The calls of a walk -/

/-- The walk after so many calls, whatever they gave. -/
def afterCalls : ℕ → Walk
  | 0 => s.walk
  | j + 1 => (afterCalls j).call.2

/-- The answer to call number `k` of a walk. -/
def answer (k : ℕ) : Option ℤ := (s.afterCalls k).call.1

theorem afterCalls_eq (j : ℕ) :
    s.afterCalls j = if j ≤ s.length then s.walkFrom j else ⟨s, none⟩ := by
  induction j with
  | zero => simp [afterCalls]
  | succ j ih =>
    rw [afterCalls, ih]
    by_cases hj : j < s.length
    · rw [if_pos hj.le, if_pos (Nat.succ_le_of_lt hj), Walk.call, next?_walkFrom, if_pos hj]
    · rw [if_neg (show ¬ j + 1 ≤ s.length from hj)]
      split
      · rw [Walk.call, next?_walkFrom, if_neg hj]
        rfl
      · rfl

theorem answer_eq (k : ℕ) : s.answer k = if k < s.length then some (s.value k) else none := by
  rw [answer, afterCalls_eq]
  split
  · rw [Walk.call, next?_walkFrom]
    by_cases hk : k < s.length
    · rw [if_pos hk, if_pos hk]
    · rw [if_neg hk, if_neg hk]
  · rw [if_neg (by omega)]
    rfl

/-- A walk that has met the stop or left the 64 bits has nothing left, as the count says. -/
theorem count?_afterCalls (j : ℕ) : (s.afterCalls j).count? = some (s.length - j) := by
  rw [afterCalls_eq]
  split
  · rw [Walk.count?, walkFrom, ← lengthFrom_value]
    cases hfit : fit? (s.value j) with
    | some p => rw [← toInt_of_fit? hfit, ← countFrom?_eq]
    | none =>
      have hbefore : s.before (s.value j) = false := by
        by_contra h
        obtain ⟨p, hp, -⟩ := exists_fit? (s.value_bounds (by simpa using h))
        rw [hp] at hfit
        contradiction
      rw [s.lengthFrom_eq_zero hbefore]
  · rw [show s.length - j = 0 by omega]
    rfl

/-! ## Being one of the values -/

theorem contains_iff (v : ℤ) : s.contains v = true ↔ ∃ k < s.length, s.value k = v := by
  have hstep := s.step_toInt_ne_zero
  simp only [contains, Bool.and_eq_true, beq_iff_eq]
  constructor
  · rintro ⟨⟨hahead, hbefore⟩, hmod⟩
    obtain ⟨q, hq⟩ := Int.dvd_of_emod_eq_zero hmod
    have hnonneg : 0 ≤ q := by
      by_contra hneg
      split at hahead
      · next hpos =>
        have := mul_neg_of_pos_of_neg hpos (not_le.mp hneg)
        simp only [decide_eq_true_eq] at hahead
        omega
      · next hpos =>
        have := mul_pos_of_neg_of_neg (lt_of_le_of_ne (not_lt.mp hpos) hstep) (not_le.mp hneg)
        simp only [decide_eq_true_eq] at hahead
        omega
    obtain ⟨k, rfl⟩ := Int.eq_ofNat_of_zero_le hnonneg
    have hvalue : s.value k = v := by rw [value]; omega
    exact ⟨k, (s.before_value_iff k).mp (hvalue ▸ hbefore), hvalue⟩
  · rintro ⟨k, hk, rfl⟩
    refine ⟨⟨?_, (s.before_value_iff k).mpr hk⟩, by simp [value]⟩
    split
    · next hpos =>
      exact decide_eq_true
        (le_add_of_nonneg_right (mul_nonneg hpos.le (Int.natCast_nonneg k)))
    · next hpos =>
      exact decide_eq_true (add_le_of_nonpos_right
        (mul_nonpos_of_nonpos_of_nonneg (not_lt.mp hpos) (Int.natCast_nonneg k)))

theorem encard_before : {k : ℕ | s.before (s.value k) = true}.encard = s.length := by
  have hset : {k : ℕ | s.before (s.value k) = true} = (Finset.range s.length : Set ℕ) := by
    ext k
    simp [before_value_iff]
  rw [hset, Set.encard_coe_eq_coe_finsetCard, Finset.card_range]

/-- What all views of a stride say of the numbers that lead from `start` by `step` to places
strictly before `stop`: there are `n` of them. -/
structure Agree (n : ℕ) : Prop where
  encard_eq : {k : ℕ | 0 < s.step.toInt ∧ s.start.toInt + k * s.step.toInt < s.stop.toInt ∨
    s.step.toInt < 0 ∧ s.stop.toInt < s.start.toInt + k * s.step.toInt}.encard = n
  /-- The calls of a walk answer with the values, which have 64 bits. -/
  answer_eq : ∀ k < n, s.answer k = some (s.start.toInt + k * s.step.toInt) ∧
    Int64.minValue.toInt ≤ s.start.toInt + k * s.step.toInt ∧
    s.start.toInt + k * s.step.toInt ≤ Int64.maxValue.toInt
  /-- Behind them, they answer with none for ever. -/
  answer_eq_none : ∀ k, n ≤ k → s.answer k = none
  /-- The count is made without an overflow. -/
  count_eq : s.length = n ∧ s.walk.count? = some n
  isEmpty_iff : s.isEmpty = true ↔ n = 0
  contains_iff : ∀ v : Int64, s.contains v.toInt = true ↔ ∃ k, s.answer k = some v.toInt
  /-- What is left is known at every call. -/
  sizeHint_eq : ∀ j, (s.afterCalls j).sizeHint? UInt64.size = some (n - j, some (n - j))

theorem agree_length : s.Agree s.length where
  encard_eq := by
    rw [← encard_before]
    simp only [before_iff, value, mul_comm]
  answer_eq k hk := by
    have hvalue : s.start.toInt + k * s.step.toInt = s.value k := by rw [value, mul_comm]
    rw [hvalue, answer_eq, if_pos hk]
    exact ⟨rfl, s.value_bounds ((s.before_value_iff k).mpr hk)⟩
  answer_eq_none k hk := by rw [answer_eq, if_neg (Nat.not_lt.mpr hk)]
  count_eq := ⟨rfl, s.count?_afterCalls 0⟩
  isEmpty_iff := beq_iff_eq
  contains_iff v := by
    rw [contains_iff]
    refine exists_congr fun k => ?_
    rw [answer_eq]
    split <;> simp_all
  sizeHint_eq j := by
    have hfits : s.length < UInt64.size := s.lengthFrom_lt s.start
    rw [Walk.sizeHint?, count?_afterCalls, Option.map_some, if_pos (by omega)]

/-- All views of a stride agree. Whatever numbers of 64 bits a stride is made of, a walk gives
exactly the values that lie before the stop, and the count, the question for a value and
what is told to be left say the same. That includes the stride that only ends at the limit
of 64 bits. -/
theorem views_agree (start stop step : Int64) (h : step ≠ 0) :
    (∃ s n, make start stop step = .ok s ∧
      s.start = start ∧ s.stop = stop ∧ s.step = step ∧ s.Agree n) ∧
    ∃ s n, unbounded start step = .ok s ∧ s.start = start ∧
      s.stop = (if step < 0 then Int64.minValue else Int64.maxValue) ∧ s.step = step ∧
      s.Agree n := by
  have hmake (stop : Int64) : make start stop step = .ok ⟨start, stop, step, h⟩ := dif_neg h
  exact ⟨⟨_, _, hmake stop, rfl, rfl, rfl, agree_length _⟩,
    _, _, hmake _, rfl, rfl, rfl, agree_length _⟩

/-- The longest step downwards from the largest number gives two values and then leaves the
64 bits. -/
theorem views_agree_longest_step :
    Int64.minValue ≠ 0 ∧
      ∃ s, make Int64.maxValue Int64.minValue Int64.minValue = .ok s ∧ s.Agree 2 := by
  have h : Int64.minValue ≠ 0 := by decide
  obtain ⟨⟨s, n, hmake, hstart, hstop, hstep, hagree⟩, -⟩ :=
    views_agree Int64.maxValue Int64.minValue Int64.minValue h
  have hlength : s.length = 2 := by
    rw [length, lengthFrom, hstart, hstop, hstep]
    decide
  obtain rfl : 2 = n := hlength.symm.trans hagree.count_eq.1
  exact ⟨h, s, hmake, hagree⟩

end Stride
end StampGrid
