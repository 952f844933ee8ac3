/-!
# Decimal numerals

Numbers in scripts, sizes and messages are written in base ten. Reading accepts
an optional sign and any number of leading zeros, and refuses everything else;
writing uses no leading zeros. Reading what was written gives the number back.
-/
namespace StampGrid.Text.Numeral

def digitChar (d : Nat) : Char := Char.ofNat (48 + d)

def digitValue (c : Char) : Nat := c.toNat - 48

/-- Digits of a natural number, most significant first. -/
def digits (n : Nat) : List Char :=
  if n < 10 then [digitChar n] else digits (n / 10) ++ [digitChar (n % 10)]

/-- The number that a row of digits stands for. -/
def value (cs : List Char) : Nat := cs.foldl (fun n c => 10 * n + digitValue c) 0

/-- Reads one or more digits and nothing else. -/
def natural? (cs : List Char) : Option Nat :=
  if cs ≠ [] ∧ cs.all Char.isDigit then some (value cs) else none

/-- Reads a natural number that may carry a plus sign. -/
def unsigned? : List Char → Option Nat
  | '+' :: cs => natural? cs
  | cs => natural? cs

/-- Reads an integer that may carry either sign. -/
def integer? : List Char → Option Int
  | '-' :: cs => (natural? cs).map fun n => -(n : Int)
  | '+' :: cs => (natural? cs).map Int.ofNat
  | cs => (natural? cs).map Int.ofNat

def unsignedBelow? (limit : Nat) (cs : List Char) : Option Nat :=
  (unsigned? cs).filter (· < limit)

def int64? (cs : List Char) : Option Int64 :=
  match integer? cs with
  | some v =>
    if Int64.minValue.toInt ≤ v ∧ v ≤ Int64.maxValue.toInt then some (Int64.ofInt v) else none
  | none => none

def decimal (n : Nat) : String := String.ofList (digits n)

/-- Writes an integer, with a sign only when it is negative. -/
def ofInt : Int → List Char
  | .ofNat n => digits n
  | .negSucc n => '-' :: digits (n + 1)

/-- Writes an integer with its sign always shown; zero counts as positive. -/
def signed : Int → List Char
  | .ofNat n => '+' :: digits n
  | .negSucc n => '-' :: digits (n + 1)

theorem isDigit_digitChar {d : Nat} (h : d < 10) : (digitChar d).isDigit = true := by
  have : ∀ d < 10, (digitChar d).isDigit = true := by decide
  exact this d h

theorem digitValue_digitChar {d : Nat} (h : d < 10) : digitValue (digitChar d) = d := by
  have : ∀ d < 10, digitValue (digitChar d) = d := by decide
  exact this d h

theorem digits_ne_nil (n : Nat) : digits n ≠ [] := by
  rw [digits]; split <;> simp

theorem isDigit_of_mem_digits {n : Nat} {c : Char} (h : c ∈ digits n) : c.isDigit = true := by
  induction n using digits.induct with
  | case1 n hn =>
    rw [digits, if_pos hn, List.mem_singleton] at h
    exact h ▸ isDigit_digitChar hn
  | case2 n hn ih =>
    rw [digits, if_neg hn, List.mem_append, List.mem_singleton] at h
    rcases h with h | rfl
    · exact ih h
    · exact isDigit_digitChar (Nat.mod_lt _ (by omega))

@[simp] theorem value_digits (n : Nat) : value (digits n) = n := by
  induction n using digits.induct with
  | case1 n hn => rw [digits, if_pos hn]; simp [value, digitValue_digitChar hn]
  | case2 n hn ih =>
    rw [digits, if_neg hn]
    simp only [value, List.foldl_append, List.foldl_cons, List.foldl_nil] at ih ⊢
    rw [ih, digitValue_digitChar (Nat.mod_lt _ (by omega))]
    omega

@[simp] theorem natural?_digits (n : Nat) : natural? (digits n) = some n := by
  have h : (digits n).all Char.isDigit = true :=
    List.all_eq_true.mpr fun _ hc => isDigit_of_mem_digits hc
  simp [natural?, digits_ne_nil, h]

/-- Reading what was written gives the number back. -/
@[simp] theorem integer?_ofInt (v : Int) : integer? (ofInt v) = some v := by
  cases v with
  | ofNat n =>
    cases hdigits : digits n with
    | nil => exact absurd hdigits (digits_ne_nil n)
    | cons c cs =>
      have hc : c.isDigit = true := isDigit_of_mem_digits (hdigits ▸ List.mem_cons_self)
      have hminus : c ≠ '-' := by rintro rfl; contradiction
      have hplus : c ≠ '+' := by rintro rfl; contradiction
      have hread : natural? (c :: cs) = some n := hdigits ▸ natural?_digits n
      rw [ofInt, hdigits, integer?.eq_3 _ (by simp [hminus]) (by simp [hplus]), hread]
      rfl
  | negSucc n => simp [ofInt, integer?, Int.negSucc_eq]

@[simp] theorem int64?_ofInt (v : Int64) : int64? (ofInt v.toInt) = some v := by
  rw [int64?, integer?_ofInt]
  exact (if_pos ⟨v.minValue_le_toInt, v.toInt_le⟩).trans (congrArg some (Int64.ofInt_toInt v))

end StampGrid.Text.Numeral
