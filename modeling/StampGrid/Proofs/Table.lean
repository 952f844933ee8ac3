import Mathlib.Data.List.Perm.Basic
import StampGrid.Table

/-!
# Tables as their entries

A table is determined by what it binds, so it may be filled from its entries in any order.
-/
namespace StampGrid

variable {α β : Type}

/-- Where no name stands twice, the first entry with a name is the only one. -/
theorem find?_name_eq_some_iff {entries : List (String × α)}
    (h : entries.Pairwise fun a b => a.1 ≠ b.1) (name : String) (value : α) :
    (entries.find? fun e => e.1 = name).map Prod.snd = some value ↔ (name, value) ∈ entries := by
  induction entries with
  | nil => simp
  | cons e entries ih =>
    obtain ⟨hne, hrest⟩ := List.pairwise_cons.mp h
    obtain ⟨name', value'⟩ := e
    by_cases hname : name' = name
    · subst hname
      have hnew : (name', value) ∉ entries := fun hmem => hne _ hmem rfl
      simp [hnew, eq_comm]
    · simp [hname, Ne.symm hname, ← ih hrest]

namespace Table

theorem names_ne (t : Table α) : t.entries.Pairwise fun a b => a.1 ≠ b.1 :=
  t.sorted.imp Std.ne_of_lt

theorem get?_eq_some_iff {t : Table α} {name : String} {value : α} :
    t.get? name = some value ↔ (name, value) ∈ t.entries :=
  find?_name_eq_some_iff t.names_ne name value

theorem nodup_entries (t : Table α) : t.entries.Nodup :=
  t.names_ne.imp fun hne heq => hne (congrArg Prod.fst heq)

/-- Tables that bind alike are equal. -/
theorem ext_get? {s t : Table α} (h : ∀ name, s.get? name = t.get? name) : s = t := by
  have hmem : ∀ e, e ∈ s.entries ↔ e ∈ t.entries := fun e => by
    rw [← get?_eq_some_iff, ← get?_eq_some_iff, h]
  refine Table.ext (List.Perm.eq_of_pairwise (fun a b _ _ hab hba => ?_) s.sorted t.sorted
    ((List.perm_ext_iff_of_nodup s.nodup_entries t.nodup_entries).mpr hmem))
  exact absurd (String.lt_trans hab hba) (String.lt_irrefl _)

/-- A table that is filled with entries of different names, their values changed. -/
theorem get?_foldl_insert (f : α → β) {entries : List (String × α)}
    (h : entries.Pairwise fun a b => a.1 ≠ b.1) (t : Table β) (name : String) :
    (entries.foldl (fun t e => t.insert e.1 (f e.2)) t).get? name =
      ((entries.find? fun e => e.1 = name).map fun e => f e.2).or (t.get? name) := by
  induction entries generalizing t with
  | nil => rfl
  | cons e entries ih =>
    obtain ⟨hne, hrest⟩ := List.pairwise_cons.mp h
    rw [List.foldl_cons, ih hrest, Table.get?_insert]
    by_cases hname : e.1 = name
    · have hnone : entries.find? (fun e => e.1 = name) = none := by
        refine List.find?_eq_none.mpr fun e' he' hname' => ?_
        exact hne e' he' (hname.trans (of_decide_eq_true hname').symm)
      simp [hname, hnone]
    · simp [hname]

/-- Its entries, in any order, fill an empty table to the table itself. -/
theorem foldl_insert_of_perm {t : Table α} {entries : List (String × α)}
    (h : entries.Perm t.entries) :
    entries.foldl (fun u e => u.insert e.1 e.2) ∅ = t := by
  have hne : entries.Pairwise fun a b => a.1 ≠ b.1 :=
    t.names_ne.perm h.symm fun hab => hab.symm
  refine ext_get? fun name => Option.ext fun value => ?_
  have hfill := get?_foldl_insert (fun v => v) hne ∅ name
  rw [get?_empty, Option.or_none] at hfill
  rw [hfill, find?_name_eq_some_iff hne, get?_eq_some_iff]
  exact h.mem_iff

end Table
end StampGrid
