import StampGrid.Text.Pattern

/-!
# What patterns match

What a pattern can take is said by a relation without any order of preference. The ways of a
pattern are exactly what this relation allows, so a search finds something as soon as there
is anything to find.
-/
namespace StampGrid.Text.Pattern

/-- Behind the characters passed and in front of those ahead, the pattern can take these
characters and capture these parts. -/
inductive Takes : Pattern → (passed taken ahead : List Char) → (captures : List (List Char)) → Prop
  | start {ahead : List Char} : Takes start [] [] ahead []
  | stop {passed : List Char} : Takes stop passed [] [] []
  | one {accepts : Char → Bool} {c : Char} (h : accepts c = true) {passed ahead : List Char} :
      Takes (one accepts) passed [c] ahead []
  | many {accepts : Char → Bool} {taken : List Char} (h : ∀ c ∈ taken, accepts c = true)
      {passed ahead : List Char} : Takes (many accepts) passed taken ahead []
  | row {p q : Pattern} {passed cs ds ahead : List Char} {xs ys : List (List Char)}
      (hp : Takes p passed cs (ds ++ ahead) xs) (hq : Takes q (passed ++ cs) ds ahead ys) :
      Takes (p ++ q) passed (cs ++ ds) ahead (xs ++ ys)
  | capture {p : Pattern} {passed taken ahead : List Char} {xs : List (List Char)}
      (h : Takes p passed taken ahead xs) : Takes (capture p) passed taken ahead (taken :: xs)

variable {accepts : Char → Bool} {p q : Pattern} {passed taken ahead cs : List Char}
  {xs : List (List Char)} {w : Way}

@[simp] theorem takes_start_iff :
    Takes start passed taken ahead xs ↔ passed = [] ∧ taken = [] ∧ xs = [] := by
  refine ⟨fun h => ?_, ?_⟩
  · cases h
    exact ⟨rfl, rfl, rfl⟩
  · rintro ⟨rfl, rfl, rfl⟩
    exact .start

@[simp] theorem takes_stop_iff :
    Takes stop passed taken ahead xs ↔ taken = [] ∧ ahead = [] ∧ xs = [] := by
  refine ⟨fun h => ?_, ?_⟩
  · cases h
    exact ⟨rfl, rfl, rfl⟩
  · rintro ⟨rfl, rfl, rfl⟩
    exact .stop

@[simp] theorem takes_one_iff :
    Takes (one accepts) passed taken ahead xs ↔
      (∃ c, accepts c = true ∧ taken = [c]) ∧ xs = [] := by
  refine ⟨fun h => ?_, ?_⟩
  · cases h with
    | one h => exact ⟨⟨_, h, rfl⟩, rfl⟩
  · rintro ⟨⟨c, h, rfl⟩, rfl⟩
    exact .one h

@[simp] theorem takes_many_iff :
    Takes (many accepts) passed taken ahead xs ↔ (∀ c ∈ taken, accepts c = true) ∧ xs = [] := by
  refine ⟨fun h => ?_, ?_⟩
  · cases h with
    | many h => exact ⟨h, rfl⟩
  · rintro ⟨h, rfl⟩
    exact .many h

@[simp] theorem takes_append_iff :
    Takes (p ++ q) passed taken ahead xs ↔
      ∃ cs ds ys zs, Takes p passed cs (ds ++ ahead) ys ∧ Takes q (passed ++ cs) ds ahead zs ∧
        taken = cs ++ ds ∧ xs = ys ++ zs := by
  refine ⟨fun h => ?_, ?_⟩
  · cases h with
    | row hp hq => exact ⟨_, _, _, _, hp, hq, rfl, rfl⟩
  · rintro ⟨cs, ds, ys, zs, hp, hq, rfl, rfl⟩
    exact .row hp hq

@[simp] theorem takes_capture_iff :
    Takes (capture p) passed taken ahead xs ↔
      ∃ ys, Takes p passed taken ahead ys ∧ xs = taken :: ys := by
  refine ⟨fun h => ?_, ?_⟩
  · cases h with
    | capture h => exact ⟨_, h, rfl⟩
  · rintro ⟨ys, h, rfl⟩
    exact .capture h

/-- A run can always end where it stands. -/
theorem stay_mem_runs (accepts : Char → Bool) (cs : List Char) :
    (⟨[], cs, []⟩ : Way) ∈ runs accepts cs := by
  cases cs with
  | nil => simp [runs]
  | cons c cs =>
    rw [runs]
    split <;> simp

theorem mem_runs_iff :
    w ∈ runs accepts cs ↔
      cs = w.taken ++ w.ahead ∧ (∀ c ∈ w.taken, accepts c = true) ∧ w.captures = [] := by
  constructor
  · intro h
    induction cs generalizing w with
    | nil =>
      obtain rfl := List.mem_singleton.mp h
      simp
    | cons c cs ih =>
      rw [runs] at h
      split at h
      · next hc =>
        rcases List.mem_append.mp h with h | h
        · obtain ⟨v, hv, rfl⟩ := List.mem_map.mp h
          obtain ⟨rfl, hall, hnone⟩ := ih hv
          exact ⟨rfl, by simpa [hc] using hall, hnone⟩
        · obtain rfl := List.mem_singleton.mp h
          simp
      · obtain rfl := List.mem_singleton.mp h
        simp
  · obtain ⟨taken, ahead, xs⟩ := w
    rintro ⟨rfl, hall, rfl⟩
    induction taken with
    | nil => exact stay_mem_runs accepts ahead
    | cons c taken ih =>
      obtain ⟨hc, hrest⟩ := List.forall_mem_cons.mp hall
      change _ ∈ runs accepts (c :: (taken ++ ahead))
      rw [runs, if_pos hc]
      exact List.mem_append_left _ (List.mem_map.mpr ⟨_, ih hrest, rfl⟩)

theorem mem_ways_start_iff :
    w ∈ start.ways passed cs ↔
      cs = w.taken ++ w.ahead ∧ Takes start passed w.taken w.ahead w.captures := by
  obtain ⟨taken, ahead, xs⟩ := w
  rw [ways, takes_start_iff]
  split
  · next h =>
    simp only [List.mem_singleton, Way.mk.injEq]
    refine ⟨?_, ?_⟩
    · rintro ⟨rfl, rfl, rfl⟩
      exact ⟨rfl, h, rfl, rfl⟩
    · rintro ⟨rfl, -, rfl, rfl⟩
      exact ⟨rfl, rfl, rfl⟩
  · next h => simp [h]

theorem mem_ways_stop_iff :
    w ∈ stop.ways passed cs ↔
      cs = w.taken ++ w.ahead ∧ Takes stop passed w.taken w.ahead w.captures := by
  obtain ⟨taken, ahead, xs⟩ := w
  rw [ways, takes_stop_iff]
  split
  · next h =>
    simp only [List.mem_singleton, Way.mk.injEq]
    refine ⟨?_, ?_⟩
    · rintro ⟨rfl, rfl, rfl⟩
      exact ⟨h, rfl, rfl, rfl⟩
    · rintro ⟨-, rfl, rfl, rfl⟩
      exact ⟨rfl, rfl, rfl⟩
  · next h =>
    refine iff_of_false List.not_mem_nil ?_
    rintro ⟨rfl, rfl, rfl, -⟩
    exact h rfl

theorem mem_ways_one_iff :
    w ∈ (one accepts).ways passed cs ↔
      cs = w.taken ++ w.ahead ∧ Takes (one accepts) passed w.taken w.ahead w.captures := by
  obtain ⟨taken, ahead, xs⟩ := w
  rw [takes_one_iff]
  cases cs with
  | nil =>
    refine iff_of_false List.not_mem_nil ?_
    rintro ⟨hcs, ⟨c, -, rfl⟩, -⟩
    simp at hcs
  | cons b cs =>
    rw [ways]
    split
    · next h =>
      simp only [List.mem_singleton, Way.mk.injEq]
      refine ⟨?_, ?_⟩
      · rintro ⟨rfl, rfl, rfl⟩
        exact ⟨rfl, ⟨b, h, rfl⟩, rfl⟩
      · rintro ⟨hcs, ⟨c, -, rfl⟩, rfl⟩
        obtain ⟨rfl, rfl⟩ := by simpa using hcs
        exact ⟨rfl, rfl, rfl⟩
    · next h =>
      refine iff_of_false List.not_mem_nil ?_
      rintro ⟨hcs, ⟨c, hc, rfl⟩, -⟩
      obtain ⟨rfl, -⟩ := by simpa using hcs
      exact h hc

/-- The ways of a pattern are exactly what it can take. -/
theorem mem_ways_iff :
    w ∈ p.ways passed cs ↔
      cs = w.taken ++ w.ahead ∧ Takes p passed w.taken w.ahead w.captures := by
  induction p generalizing passed cs w with
  | start => exact mem_ways_start_iff
  | stop => exact mem_ways_stop_iff
  | one accepts => exact mem_ways_one_iff
  | many accepts => rw [ways, mem_runs_iff, takes_many_iff]
  | row p q ihp ihq =>
    obtain ⟨taken, ahead, xs⟩ := w
    change _ ↔ _ ∧ Takes (p ++ q) passed taken ahead xs
    simp only [ways, List.mem_flatMap, List.mem_map, ihp, ihq, takes_append_iff, Way.mk.injEq]
    constructor
    · rintro ⟨v, ⟨rfl, hp⟩, u, ⟨hahead, hq⟩, rfl, rfl, rfl⟩
      rw [hahead] at hp
      exact ⟨by rw [hahead, List.append_assoc], _, _, _, _, hp, hq, rfl, rfl⟩
    · rintro ⟨rfl, cs, ds, ys, zs, hp, hq, rfl, rfl⟩
      exact ⟨⟨cs, ds ++ ahead, ys⟩, ⟨List.append_assoc .., hp⟩, ⟨ds, ahead, zs⟩, ⟨rfl, hq⟩,
        rfl, rfl, rfl⟩
  | capture p ih =>
    obtain ⟨taken, ahead, xs⟩ := w
    simp only [ways, List.mem_map, ih, takes_capture_iff, Way.mk.injEq]
    constructor
    · rintro ⟨v, ⟨rfl, hv⟩, rfl, rfl, rfl⟩
      exact ⟨rfl, _, hv, rfl⟩
    · rintro ⟨rfl, ys, hp, rfl⟩
      exact ⟨⟨taken, ahead, ys⟩, ⟨rfl, hp⟩, rfl, rfl, rfl⟩

/-- What a search finds is something that the pattern can take. -/
theorem takes_of_search {text : List Char} (h : p.search text = some w) :
    ∃ passed, text = passed ++ (w.taken ++ w.ahead) ∧
      Takes p passed w.taken w.ahead w.captures := by
  obtain ⟨n, -, hn⟩ := List.exists_of_findSome?_eq_some h
  obtain ⟨hdrop, htakes⟩ := mem_ways_iff.mp (List.mem_of_head? hn)
  exact ⟨text.take n, by rw [← hdrop, List.take_append_drop], htakes⟩

/-- A search finds nothing only if the pattern can take nothing at any place. -/
theorem not_takes_of_search {text : List Char} (h : p.search text = none)
    (htext : text = passed ++ (taken ++ ahead)) : ¬ Takes p passed taken ahead xs := by
  intro htakes
  have hplace : passed.length ∈ List.range (text.length + 1) := by
    rw [List.mem_range, htext, List.length_append]
    omega
  have hhead := List.findSome?_eq_none_iff.mp h _ hplace
  rw [htext, List.take_left, List.drop_left, List.head?_eq_none_iff] at hhead
  have hway : (⟨taken, ahead, xs⟩ : Way) ∈ p.ways passed (taken ++ ahead) :=
    mem_ways_iff.mpr ⟨rfl, htakes⟩
  rw [hhead] at hway
  exact List.not_mem_nil hway

end StampGrid.Text.Pattern
