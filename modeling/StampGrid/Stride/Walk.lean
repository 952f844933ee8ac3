import StampGrid.Stride

/-!
# Walking a stride

A walk stands at a number of 64 bits on a stride. Each move gives that number,
if it is before the stop, and goes one step further; a sum that leaves the 64
bits ends the walk, and so does the stop. A walk that has ended gives nothing
more. How much is left is known at every position without walking.
-/
namespace StampGrid

/-- The number of 64 bits that is equal to `v`, if there is one. -/
def fit? (v : Int) : Option Int64 :=
  if Int64.minValue.toInt ≤ v ∧ v ≤ Int64.maxValue.toInt then some (Int64.ofInt v) else none

theorem toInt_of_fit? {v : Int} {n : Int64} (h : fit? v = some n) : n.toInt = v := by
  simp only [fit?] at h
  split at h
  · next hv =>
    obtain rfl := by simpa using h
    exact Int64.toInt_ofInt_of_le hv.1 (Int.lt_add_one_of_le hv.2)
  · contradiction

theorem fit?_eq_none_iff {v : Int} :
    fit? v = none ↔ v < Int64.minValue.toInt ∨ Int64.maxValue.toInt < v := by
  simp only [fit?]
  split
  · exact iff_of_false (by simp) (by omega)
  · exact iff_of_true rfl (by omega)

@[simp] theorem fit?_toInt (n : Int64) : fit? n.toInt = some n := by
  rw [fit?, if_pos ⟨n.minValue_le_toInt, n.toInt_le⟩, Int64.ofInt_toInt]

/-- A step that leaves the 64 bits passes the stop. -/
theorem Stride.before_of_fit?_eq_none (s : Stride) {v : Int64}
    (h : fit? (v.toInt + s.step.toInt) = none) : s.before (v.toInt + s.step.toInt) = false := by
  have hv := And.intro v.minValue_le_toInt v.toInt_le
  have hs := And.intro s.stop.minValue_le_toInt s.stop.toInt_le
  rw [fit?_eq_none_iff] at h
  rw [← Bool.not_eq_true, before_iff]
  omega

structure Walk where
  stride : Stride
  /-- The number that the walk stands at; none where a sum left the 64 bits. -/
  position? : Option Int64
  deriving DecidableEq, Repr

def Stride.walk (s : Stride) : Walk := ⟨s, some s.start⟩

namespace Walk

/-- The value at the position, and the walk behind it. -/
def next? (w : Walk) : Option (Int × Walk) :=
  match w.position? with
  | none => none
  | some v =>
    if w.stride.before v.toInt then
      some (v.toInt, { w with position? := fit? (v.toInt + w.stride.step.toInt) })
    else none

/-- The number of values not given yet. -/
def remaining (w : Walk) : Nat :=
  match w.position? with
  | none => 0
  | some v => w.stride.lengthFrom v.toInt

/-- The answer to a call for the next value, and the walk behind the call. A call
that gives nothing ends the walk. -/
def call (w : Walk) : Option Int × Walk :=
  match w.next? with
  | some (v, w') => (some v, w')
  | none => (none, { w with position? := none })

/-- The number of values left, as a stride counts it in numbers of 128 bits. -/
def count? (w : Walk) : Option Nat :=
  match w.position? with
  | none => some 0
  | some v => w.stride.countFrom? v

/-- A lower and an upper bound on the number of values left, both below `limit`.
Where the number itself is not, there is no upper bound. -/
def sizeHint? (limit : Nat) (w : Walk) : Option (Nat × Option Nat) :=
  w.count?.map fun n => if n < limit then (n, some n) else (limit - 1, none)

def skip (n : Nat) (w : Walk) : Walk :=
  let size := (min n w.remaining : Nat) * w.stride.step.toInt
  { w with position? := w.position?.bind fun v => fit? (v.toInt + size) }

/-- The value `n` places ahead, and the walk behind it. -/
def nth? (n : Nat) (w : Walk) : Option Int × Walk :=
  match (w.skip n).next? with
  | some (v, w') => (some v, w')
  | none => (none, w.skip n)

/-- Up to `n` values, in order, and the walk behind them. -/
def take : Nat → Walk → List Int × Walk
  | 0, w => ([], w)
  | n + 1, w =>
    match w.next? with
    | none => ([], w)
    | some (v, w') =>
      let (vs, w'') := take n w'
      (v :: vs, w'')

def last? (w : Walk) : Option Int :=
  (w.nth? (w.remaining - 1)).1

@[simp] theorem remaining_walk (s : Stride) : s.walk.remaining = s.length := rfl

theorem next?_eq_none_iff (w : Walk) : w.next? = none ↔ w.remaining = 0 := by
  obtain ⟨s, _ | v⟩ := w
  · simp [next?, remaining]
  · by_cases h : s.before v.toInt = true
    · simp [next?, h, remaining, Stride.lengthFrom_of_before _ h]
    · have h : s.before v.toInt = false := by simpa using h
      simp [next?, h, remaining, Stride.lengthFrom_eq_zero _ h]

/-- Every move uses up one value. -/
theorem remaining_of_next? {w w' : Walk} {v : Int} (h : w.next? = some (v, w')) :
    w.remaining = w'.remaining + 1 := by
  obtain ⟨s, _ | p⟩ := w
  · simp [next?] at h
  · simp only [next?] at h
    split at h
    · next hb =>
      obtain ⟨rfl, rfl⟩ := by simpa using h
      have hleft := Stride.lengthFrom_of_before s hb
      cases hf : fit? (p.toInt + s.step.toInt) with
      | none =>
        have hzero := Stride.lengthFrom_eq_zero s (Stride.before_of_fit?_eq_none s hf)
        simpa [remaining, hf, hzero] using hleft
      | some q => simpa [remaining, hf, toInt_of_fit? hf] using hleft
    · contradiction

end Walk
end StampGrid
