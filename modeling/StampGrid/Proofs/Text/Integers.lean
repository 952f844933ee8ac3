import Mathlib.Data.List.Induction
import Mathlib.Data.Nat.Digits.Defs
import StampGrid.Text.Numeral

/-!
# The integers that texts stand for

An integer is written as a row of decimal digits, which may have a sign in front and any
number of leading zeros. A reader of 64 bits takes the texts whose integer has 64 bits, and
no others.
-/
namespace StampGrid.Text.Numeral

/-- The text is a row of one or more digits that stands for `n`. -/
def IsRow (cs : List Char) (n : ℕ) : Prop :=
  cs ≠ [] ∧ (∀ c ∈ cs, '0' ≤ c ∧ c ≤ '9') ∧ Nat.ofDigits 10 (cs.reverse.map digitValue) = n

/-- The text is a row of digits, with or without a sign, that stands for `v`. -/
inductive Denotes : List Char → ℤ → Prop
  | unsigned {ds : List Char} {n : ℕ} (h : IsRow ds n) : Denotes ds n
  | plus {ds : List Char} {n : ℕ} (h : IsRow ds n) : Denotes ('+' :: ds) n
  | minus {ds : List Char} {n : ℕ} (h : IsRow ds n) : Denotes ('-' :: ds) (-n)

/-- The text is a row of digits, with or without a plus, that stands for `n`. -/
inductive DenotesNat : List Char → ℕ → Prop
  | bare {ds : List Char} {n : ℕ} (h : IsRow ds n) : DenotesNat ds n
  | plus {ds : List Char} {n : ℕ} (h : IsRow ds n) : DenotesNat ('+' :: ds) n

/-- The text stands for `v`, which has 64 bits. -/
def Denotes64 (cs : List Char) (v : ℤ) : Prop := Denotes cs v ∧ -2 ^ 63 ≤ v ∧ v ≤ 2 ^ 63 - 1

theorem value_eq_ofDigits (cs : List Char) :
    value cs = Nat.ofDigits 10 (cs.reverse.map digitValue) := by
  induction cs using List.reverseRecOn with
  | nil => rfl
  | append_singleton cs c ih =>
    rw [value, List.foldl_append, List.reverse_append, List.map_append, List.reverse_singleton,
      List.map_singleton, List.singleton_append, Nat.ofDigits_cons, ← ih]
    simp [value, Nat.add_comm]

theorem isDigit_iff {c : Char} : c.isDigit = true ↔ '0' ≤ c ∧ c ≤ '9' := by
  simp [Char.isDigit, Char.le_def]

theorem natural?_eq_some_iff {cs : List Char} {n : ℕ} : natural? cs = some n ↔ IsRow cs n := by
  simp [natural?, IsRow, isDigit_iff, value_eq_ofDigits, and_assoc]

theorem isRow_digits (n : ℕ) : IsRow (digits n) n :=
  natural?_eq_some_iff.mp (natural?_digits n)

theorem IsRow.unique {cs : List Char} {n m : ℕ} (h : IsRow cs n) (h' : IsRow cs m) : n = m :=
  h.2.2.symm.trans h'.2.2

theorem IsRow.notMem {cs : List Char} {n : ℕ} {c : Char} (h : IsRow cs n)
    (hc : c.isDigit = false) : c ∉ cs := fun hmem => by
  rw [isDigit_iff.mpr (h.2.1 c hmem)] at hc
  exact Bool.noConfusion hc

theorem IsRow.isDigit {cs : List Char} {n : ℕ} {c : Char} (h : IsRow cs n) (hc : c ∈ cs) :
    c.isDigit = true :=
  isDigit_iff.mpr (h.2.1 c hc)

theorem unsigned?_eq_some_iff {cs : List Char} {n : ℕ} :
    unsigned? cs = some n ↔ DenotesNat cs n := by
  constructor
  · intro h
    unfold unsigned? at h
    split at h
    · exact .plus (natural?_eq_some_iff.mp h)
    · exact .bare (natural?_eq_some_iff.mp h)
  · rintro (h | h)
    · have hplus : ∀ ds, cs = '+' :: ds → False := fun ds hcs =>
        h.notMem rfl (hcs ▸ List.mem_cons_self)
      rw [unsigned?.eq_2 _ hplus]
      exact natural?_eq_some_iff.mpr h
    · exact natural?_eq_some_iff.mpr h

theorem unsignedBelow?_eq_some_iff {limit n : ℕ} {cs : List Char} :
    unsignedBelow? limit cs = some n ↔ DenotesNat cs n ∧ n < limit := by
  simp [unsignedBelow?, Option.filter_eq_some_iff, unsigned?_eq_some_iff]

theorem DenotesNat.unique {cs : List Char} {n m : ℕ} (h : DenotesNat cs n)
    (h' : DenotesNat cs m) : n = m :=
  Option.some.inj ((unsigned?_eq_some_iff.mpr h).symm.trans (unsigned?_eq_some_iff.mpr h'))

theorem DenotesNat.ne_nil {cs : List Char} {n : ℕ} (h : DenotesNat cs n) : cs ≠ [] := by
  cases h with
  | bare h => exact h.1
  | plus h => exact List.cons_ne_nil _ _

theorem DenotesNat.mem {cs : List Char} {n : ℕ} {c : Char} (h : DenotesNat cs n) (hc : c ∈ cs) :
    c = '+' ∨ c.isDigit = true := by
  cases h with
  | bare h => exact .inr (h.isDigit hc)
  | plus h =>
    rcases List.mem_cons.mp hc with hplus | hc
    · exact .inl hplus
    · exact .inr (h.isDigit hc)

/-- A row of digits has no sign. -/
theorem IsRow.integer?_eq {ds : List Char} {n : ℕ} (h : IsRow ds n) : integer? ds = some n := by
  have hread := natural?_eq_some_iff.mpr h
  obtain ⟨hne, hdigits, -⟩ := h
  obtain ⟨c, cs, rfl⟩ := List.exists_cons_of_ne_nil hne
  have hc := hdigits c List.mem_cons_self
  have hminus : c ≠ '-' := by rintro rfl; revert hc; decide
  have hplus : c ≠ '+' := by rintro rfl; revert hc; decide
  rw [integer?.eq_3 _ (by simp [hminus]) (by simp [hplus]), hread]
  rfl

theorem integer?_eq_some_iff {cs : List Char} {v : ℤ} : integer? cs = some v ↔ Denotes cs v := by
  constructor
  · intro h
    unfold integer? at h
    split at h
    · next ds =>
      obtain ⟨n, hn, rfl⟩ : ∃ n : ℕ, natural? ds = some n ∧ -(n : ℤ) = v := by
        simpa [Option.bind_eq_some_iff] using h
      exact .minus (natural?_eq_some_iff.mp hn)
    · obtain ⟨n, hn, rfl⟩ := Option.map_eq_some_iff.mp h
      exact .plus (natural?_eq_some_iff.mp hn)
    · obtain ⟨n, hn, rfl⟩ := Option.map_eq_some_iff.mp h
      exact .unsigned (natural?_eq_some_iff.mp hn)
  · rintro (h | h | h)
    · exact h.integer?_eq
    all_goals simp [integer?, natural?_eq_some_iff.mpr h]

instance (cs : List Char) (v : ℤ) : Decidable (Denotes cs v) :=
  decidable_of_iff (integer? cs = some v) integer?_eq_some_iff

instance (cs : List Char) (v : ℤ) : Decidable (Denotes64 cs v) :=
  inferInstanceAs (Decidable (_ ∧ _ ∧ _))

theorem Denotes64.unique {cs : List Char} {v w : ℤ} (h : Denotes64 cs v)
    (h' : Denotes64 cs w) : v = w :=
  Option.some.inj ((integer?_eq_some_iff.mpr h.1).symm.trans (integer?_eq_some_iff.mpr h'.1))

theorem int64?_eq_some_iff {cs : List Char} {v : Int64} :
    int64? cs = some v ↔ Denotes64 cs v.toInt := by
  have hlow : Int64.minValue.toInt = -2 ^ 63 := by decide
  have hhigh : Int64.maxValue.toInt = 2 ^ 63 - 1 := by decide
  rw [Denotes64, ← integer?_eq_some_iff, int64?, hlow, hhigh]
  cases integer? cs with
  | none => simp
  | some n =>
    by_cases hrange : -2 ^ 63 ≤ n ∧ n ≤ 2 ^ 63 - 1
    · have hn : (Int64.ofInt n).toInt = n := Int64.toInt_ofInt_of_le hrange.1 (by omega)
      simp only [if_pos hrange, Option.some.injEq]
      constructor
      · rintro rfl
        exact ⟨hn.symm, hn.symm ▸ hrange⟩
      · rintro ⟨rfl, -⟩
        exact Int64.ofInt_toInt v
    · simp only [if_neg hrange, reduceCtorEq, Option.some.injEq, false_iff]
      rintro ⟨rfl, hv⟩
      exact hrange hv

theorem denotes64_ofInt (v : Int64) : Denotes64 (ofInt v.toInt) v.toInt :=
  int64?_eq_some_iff.mp (int64?_ofInt v)

/-- An integer of 64 bits is one of the numbers that the reader gives. -/
theorem Denotes64.exists_int64 {cs : List Char} {v : ℤ} (h : Denotes64 cs v) :
    ∃ x : Int64, x.toInt = v ∧ int64? cs = some x := by
  have hv : (Int64.ofInt v).toInt = v :=
    Int64.toInt_ofInt_of_le h.2.1 (by have := h.2.2; omega)
  exact ⟨_, hv, int64?_eq_some_iff.mpr (hv.symm ▸ h)⟩

theorem isSome_int64?_iff {cs : List Char} : (int64? cs).isSome ↔ ∃ v, Denotes64 cs v := by
  rw [Option.isSome_iff_exists]
  constructor
  · rintro ⟨x, hx⟩
    exact ⟨_, int64?_eq_some_iff.mp hx⟩
  · rintro ⟨v, h⟩
    obtain ⟨x, -, hx⟩ := h.exists_int64
    exact ⟨x, hx⟩

instance (cs : List Char) : Decidable (∃ v, Denotes64 cs v) :=
  decidable_of_iff _ isSome_int64?_iff

end StampGrid.Text.Numeral
