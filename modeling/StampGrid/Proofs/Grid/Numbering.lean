import StampGrid.Axis
import StampGrid.Proofs.Stride.Values

/-!
# The numbers of the coordinates

The coordinates of a grid are numbered from zero as in a mixed radix: the
lengths of the axes are the radices, and the outermost axis has the most
significant digit. A digit is the number of a value on its axis. All numbers
below the size of the grid have different digits, every choice of values is the
digits of one of them, and they are ordered as their digits are. Looked up under a
name, a coordinate has the value of the first axis with that name.
-/
namespace StampGrid.Axis

/-- The digits of `k`: for each axis, the number of one of its values. -/
def digits : List Axis → ℕ → List ℕ
  | [], _ => []
  | a :: axes, k => k / gridSize axes % a.stride.length :: digits axes k

/-- The coordinate that takes from each axis the value with the number of its digit. -/
def pick (axes : List Axis) (ds : List ℕ) : Coordinate :=
  ⟨List.zipWith (fun a d => (a.name, a.stride.value d)) axes ds⟩

/-- Coordinate number `k` of a grid. -/
def coordinate (axes : List Axis) (k : ℕ) : Coordinate := pick axes (digits axes k)

/-- Each axis has a digit, which is the number of a value before the stop. -/
def Within (axes : List Axis) (ds : List ℕ) : Prop :=
  List.Forall₂ (fun a d => d < a.stride.length) axes ds

/-- Each axis has its name and one of its values before the stop, in the order of the axes. -/
def Spans (axes : List Axis) (c : Coordinate) : Prop :=
  List.Forall₂ (fun a p => p.1 = a.name ∧ ∃ d < a.stride.length, p.2 = a.stride.value d)
    axes c.pairs

theorem gridSize_eq_prod (axes : List Axis) :
    gridSize axes = (axes.map fun a => a.stride.length).prod := by
  induction axes with
  | nil => rfl
  | cons a axes ih => simp [gridSize, ih]

theorem coordinate_cons (a : Axis) (axes : List Axis) (k : ℕ) :
    (coordinate (a :: axes) k).pairs =
      (a.name, a.stride.value (k / gridSize axes % a.stride.length)) ::
        (coordinate axes k).pairs := by
  simp only [coordinate, pick, digits, List.zipWith_cons_cons]

theorem length_coordinate (axes : List Axis) (k : ℕ) :
    (coordinate axes k).pairs.length = axes.length := by
  induction axes with
  | nil => rfl
  | cons a axes ih => rw [coordinate_cons, List.length_cons, List.length_cons, ih]

/-- A coordinate has the names of the axes, in their order. -/
theorem names_coordinate (axes : List Axis) (k : ℕ) :
    (coordinate axes k).pairs.map Prod.fst = axes.map Axis.name := by
  induction axes with
  | nil => rfl
  | cons a axes ih => rw [coordinate_cons, List.map_cons, List.map_cons, ih]

/-- An axis moves on each time the axes behind it have gone through all their values. -/
theorem getElem?_coordinate {axes : List Axis} {i : ℕ} (k : ℕ) (hi : i < axes.length) :
    (coordinate axes k).pairs[i]? = some (axes[i].name, axes[i].stride.value
      (k / ((axes.drop (i + 1)).map fun a => a.stride.length).prod % axes[i].stride.length)) := by
  induction axes generalizing i with
  | nil => contradiction
  | cons a axes ih =>
    rw [coordinate_cons]
    cases i with
    | zero => simp [gridSize_eq_prod]
    | succ i =>
      have hrest := ih (Nat.lt_of_succ_lt_succ hi)
      simpa using hrest

/-- The values of the inner axes stand behind those of the outer ones. -/
theorem exists_coordinate_append (outer inner : List Axis) (k : ℕ) :
    ∃ before, (coordinate (outer ++ inner) k).pairs = before ++ (coordinate inner k).pairs ∧
      before.map Prod.fst = outer.map name := by
  induction outer with
  | nil => exact ⟨[], rfl, rfl⟩
  | cons a outer ih =>
    obtain ⟨before, hpairs, hnames⟩ := ih
    rw [List.cons_append, coordinate_cons, hpairs]
    exact ⟨_ :: before, rfl, congrArg (a.name :: ·) hnames⟩

/-- The value that the axes have under a name at coordinate `k`: that of the first axis with
the name, which moves on each time the axes behind it have gone through all their values, and
zero where no axis has the name. -/
inductive ValueAt (axes : List Axis) (k : ℕ) (name : String) : ℤ → Prop
  | first {outer inner : List Axis} {a : Axis} (haxes : axes = outer ++ a :: inner)
      (hname : a.name = name) (houter : ∀ b ∈ outer, b.name ≠ name) :
      ValueAt axes k name (a.stride.value
        (k / (inner.map fun b => b.stride.length).prod % a.stride.length))
  | missing (hnone : ∀ a ∈ axes, a.name ≠ name) : ValueAt axes k name 0

theorem exists_valueAt (axes : List Axis) (k : ℕ) (name : String) :
    ∃ v, ValueAt axes k name v := by
  by_cases h : name ∈ axes.map Axis.name
  · obtain ⟨before, after, hnames, hbefore⟩ := List.eq_append_cons_of_mem h
    obtain ⟨outer, rest, rfl, rfl, hrest⟩ := List.map_eq_append_iff.mp hnames
    obtain ⟨a, inner, rfl, hname, -⟩ := List.map_eq_cons_iff.mp hrest
    exact ⟨_, .first rfl hname fun b hb heq => hbefore (heq ▸ List.mem_map_of_mem hb)⟩
  · exact ⟨0, .missing fun a ha heq => h (heq ▸ List.mem_map_of_mem ha)⟩

/-- A coordinate is looked up under the name of an axis, and has the value of that axis. -/
theorem ValueAt.getD_get? {axes : List Axis} {k : ℕ} {name : String} {v : ℤ}
    (h : ValueAt axes k name v) : ((coordinate axes k).get? name).getD 0 = v := by
  have hnames {ps : List (String × ℤ)} {bs : List Axis} (heq : ps.map Prod.fst = bs.map Axis.name)
      (hbs : ∀ b ∈ bs, b.name ≠ name) : ∀ p ∈ ps, p.1 ≠ name := by
    intro p hp
    obtain ⟨b, hb, hname⟩ := List.mem_map.mp (heq ▸ List.mem_map_of_mem hp)
    exact hname ▸ hbs b hb
  cases h with
  | @first outer inner a haxes hname houter =>
    obtain ⟨before, hpairs, hbefore⟩ := exists_coordinate_append outer (a :: inner) k
    rw [coordinate_cons, gridSize_eq_prod, hname] at hpairs
    rw [haxes, Coordinate.get?_eq_some_iff.mpr ⟨before, _, hpairs, hnames hbefore houter⟩]
    rfl
  | missing hnone =>
    rw [Coordinate.get?_eq_none_iff.mpr (hnames (names_coordinate axes k) hnone)]
    rfl

theorem valueAt_iff {axes : List Axis} {k : ℕ} {name : String} {v : ℤ} :
    ValueAt axes k name v ↔ ((coordinate axes k).get? name).getD 0 = v := by
  refine ⟨ValueAt.getD_get?, ?_⟩
  rintro rfl
  obtain ⟨w, hw⟩ := exists_valueAt axes k name
  rwa [hw.getD_get?]

/-- The digits of the inner axes start over when the outer axis goes on. -/
theorem digits_add_mul_gridSize (axes : List Axis) (k m : ℕ) :
    digits axes (k + m * gridSize axes) = digits axes k := by
  induction axes generalizing m with
  | nil => rfl
  | cons a axes ih =>
    have hmul : m * gridSize (a :: axes) = m * a.stride.length * gridSize axes := by
      simp [gridSize, mul_assoc]
    rw [hmul, digits, digits, ih]
    congr 1
    rcases Nat.eq_zero_or_pos (gridSize axes) with h | h
    · simp [h]
    · rw [Nat.add_mul_div_right _ _ h, Nat.add_mul_mod_self_right]

theorem digits_mod_gridSize (axes : List Axis) (k : ℕ) :
    digits axes (k % gridSize axes) = digits axes k := by
  have h := digits_add_mul_gridSize axes (k % gridSize axes) (k / gridSize axes)
  rwa [Nat.mod_add_div', eq_comm] at h

/-- Below the size of the grid, the first digit is a quotient and the others are
the digits of the remainder. -/
theorem digits_cons {a : Axis} {axes : List Axis} {k : ℕ} (h : k < gridSize (a :: axes)) :
    digits (a :: axes) k = k / gridSize axes :: digits axes (k % gridSize axes) := by
  have hdigit : k / gridSize axes < a.stride.length := by
    apply Nat.div_lt_of_lt_mul
    rwa [mul_comm]
  rw [digits, Nat.mod_eq_of_lt hdigit, digits_mod_gridSize]

/-- The number with these digits. -/
def number : List Axis → List ℕ → ℕ
  | _ :: axes, d :: ds => d * gridSize axes + number axes ds
  | _, _ => 0

theorem number_lt {axes : List Axis} {ds : List ℕ} (h : Within axes ds) :
    number axes ds < gridSize axes := by
  induction h with
  | nil => exact Nat.one_pos
  | @cons a d axes ds hd _ ih =>
    calc d * gridSize axes + number axes ds
        < d * gridSize axes + gridSize axes := by omega
      _ = (d + 1) * gridSize axes := by ring
      _ ≤ a.stride.length * gridSize axes := Nat.mul_le_mul_right _ hd

theorem digits_number {axes : List Axis} {ds : List ℕ} (h : Within axes ds) :
    digits axes (number axes ds) = ds := by
  induction h with
  | nil => rfl
  | @cons _ d axes ds hd hds ih =>
    have hlt := number_lt hds
    have hpos : 0 < gridSize axes := by omega
    have hdiv : (d * gridSize axes + number axes ds) / gridSize axes = d := by
      rw [Nat.mul_comm, Nat.mul_add_div hpos, Nat.div_eq_of_lt hlt, Nat.add_zero]
    rw [number, digits, hdiv, Nat.mod_eq_of_lt hd, Nat.add_comm, digits_add_mul_gridSize, ih]

theorem within_digits {axes : List Axis} {k : ℕ} (h : k < gridSize axes) :
    Within axes (digits axes k) := by
  induction axes generalizing k with
  | nil => exact .nil
  | cons a axes ih =>
    have hpos : 0 < gridSize axes := Nat.pos_of_mul_pos_left (Nat.zero_lt_of_lt h)
    rw [digits_cons h]
    refine .cons (Nat.div_lt_of_lt_mul ?_) (ih (Nat.mod_lt _ hpos))
    rwa [mul_comm]

/-- The digits are compared from the outermost axis on. -/
theorem digits_lt_digits {axes : List Axis} {j k : ℕ} (hjk : j < k) (hk : k < gridSize axes) :
    digits axes j < digits axes k := by
  induction axes generalizing j k with
  | nil => simp [gridSize] at hk; omega
  | cons a axes ih =>
    have hpos : 0 < gridSize axes := Nat.pos_of_mul_pos_left (Nat.zero_lt_of_lt hk)
    rw [digits_cons (hjk.trans hk), digits_cons hk, List.cons_lt_cons_iff]
    obtain hlt | heq := (Nat.div_le_div_right hjk.le : j / gridSize axes ≤ _).lt_or_eq
    · exact .inl hlt
    · refine .inr ⟨heq, ih ?_ (Nat.mod_lt _ hpos)⟩
      have hj := Nat.div_add_mod j (gridSize axes)
      have hk := Nat.div_add_mod k (gridSize axes)
      rw [heq] at hj
      omega

theorem digits_injective {axes : List Axis} {j k : ℕ} (hj : j < gridSize axes)
    (hk : k < gridSize axes) (h : digits axes j = digits axes k) : j = k := by
  rcases lt_trichotomy j k with hlt | heq | hgt
  · exact absurd (digits_lt_digits hlt hk) (h ▸ lt_irrefl _)
  · exact heq
  · exact absurd (digits_lt_digits hgt hj) (h ▸ lt_irrefl _)

theorem spans_pick {axes : List Axis} {ds : List ℕ} (h : Within axes ds) :
    Spans axes (pick axes ds) := by
  induction h with
  | nil => exact .nil
  | cons hd _ ih => exact .cons ⟨rfl, _, hd, rfl⟩ ih

theorem Spans.exists_pick {axes : List Axis} {c : Coordinate} (h : Spans axes c) :
    ∃ ds, Within axes ds ∧ pick axes ds = c := by
  obtain ⟨pairs⟩ := c
  simp only [Spans] at h
  induction h with
  | nil => exact ⟨[], .nil, rfl⟩
  | @cons a p axes ps hp _ ih =>
    obtain ⟨name, v⟩ := p
    obtain ⟨rfl, d, hd, rfl⟩ := hp
    obtain ⟨ds, hds, hpick⟩ := ih
    refine ⟨d :: ds, .cons hd hds, ?_⟩
    simpa [pick] using hpick

/-- The values of a stride are different, so a coordinate tells its digits. -/
theorem pick_injective {axes : List Axis} {ds es : List ℕ} (hds : Within axes ds)
    (hes : Within axes es) (h : pick axes ds = pick axes es) : ds = es := by
  induction hds generalizing es with
  | nil => cases hes; rfl
  | @cons a d axes ds _ _ ih =>
    cases hes with
    | @cons _ e _ es _ hes =>
      simp only [pick, List.zipWith_cons_cons, Coordinate.mk.injEq, List.cons.injEq,
        Prod.mk.injEq, true_and] at h
      rw [a.stride.value_injective h.1, ih hes (congrArg Coordinate.mk h.2)]

/-- The coordinates of a grid are those with a number below its size, each with one. -/
theorem spans_iff (axes : List Axis) (c : Coordinate) :
    Spans axes c ↔ ∃! k, k < gridSize axes ∧ coordinate axes k = c := by
  constructor
  · intro h
    obtain ⟨ds, hds, rfl⟩ := h.exists_pick
    refine ⟨number axes ds, ⟨number_lt hds, by rw [coordinate, digits_number hds]⟩, ?_⟩
    rintro k ⟨hk, hpick⟩
    have hdigits := pick_injective (within_digits hk) hds hpick
    exact digits_injective hk (number_lt hds) (hdigits.trans (digits_number hds).symm)
  · rintro ⟨k, ⟨hk, rfl⟩, -⟩
    exact spans_pick (within_digits hk)

end StampGrid.Axis
