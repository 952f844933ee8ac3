/-!
# Tables kept in name order

A table binds names to values, each name once. Its entries stay in increasing
order of the names, code point by code point, so equal bindings make equal
tables and walking a table visits the names in a fixed order.
-/
namespace StampGrid

/-- Binds `name` in an ordered list of entries, replacing the value it had. -/
def insertEntry {α : Type} (name : String) (value : α) :
    List (String × α) → List (String × α)
  | [] => [(name, value)]
  | entry :: rest =>
      if name < entry.1 then (name, value) :: entry :: rest
      else if name = entry.1 then (name, value) :: rest
      else entry :: insertEntry name value rest

theorem mem_insertEntry {α : Type} {name : String} {value : α} {e : String × α}
    {entries : List (String × α)} (h : e ∈ insertEntry name value entries) :
    e = (name, value) ∨ e ∈ entries := by
  induction entries with
  | nil => simpa [insertEntry] using h
  | cons entry rest ih =>
    rw [insertEntry] at h
    split at h
    · simpa using h
    · split at h
      · rcases List.mem_cons.mp h with h | h
        · exact .inl h
        · exact .inr (List.mem_cons_of_mem _ h)
      · rcases List.mem_cons.mp h with h | h
        · exact .inr (h ▸ List.mem_cons_self)
        · exact (ih h).imp id (List.mem_cons_of_mem _)

theorem insertEntry_sorted {α : Type} (name : String) (value : α) {entries : List (String × α)}
    (h : entries.Pairwise fun a b => a.1 < b.1) :
    (insertEntry name value entries).Pairwise fun a b => a.1 < b.1 := by
  induction entries with
  | nil => simp [insertEntry]
  | cons entry rest ih =>
    obtain ⟨hlt, hrest⟩ := List.pairwise_cons.mp h
    rw [insertEntry]
    split
    · next hn =>
      refine List.pairwise_cons.mpr ⟨fun e he => ?_, h⟩
      rcases List.mem_cons.mp he with rfl | he
      · exact hn
      · exact String.lt_trans hn (hlt e he)
    · next hn =>
      split
      · next he =>
        subst he
        exact List.pairwise_cons.mpr ⟨hlt, hrest⟩
      · next hne =>
        refine List.pairwise_cons.mpr ⟨fun e he => ?_, ih hrest⟩
        rcases mem_insertEntry he with rfl | he
        · exact Std.lt_of_le_of_ne hn (Ne.symm hne)
        · exact hlt e he

structure Table (α : Type) where
  entries : List (String × α) := []
  sorted : entries.Pairwise (fun a b => a.1 < b.1) := by simp

namespace Table

instance {α : Type} : EmptyCollection (Table α) := ⟨{}⟩
instance {α : Type} : Inhabited (Table α) := ⟨∅⟩

@[ext] theorem ext {α : Type} {s t : Table α} (h : s.entries = t.entries) : s = t := by
  cases s; cases t; cases h; rfl

/-- Binds `name` to `value`, replacing the value it had. -/
def insert {α : Type} (t : Table α) (name : String) (value : α) : Table α :=
  ⟨insertEntry name value t.entries, insertEntry_sorted name value t.sorted⟩

def get? {α : Type} (t : Table α) (name : String) : Option α :=
  (t.entries.find? fun e => e.1 = name).map Prod.snd

@[simp] theorem get?_empty {α : Type} (name : String) : (∅ : Table α).get? name = none := rfl

@[simp] theorem get?_insert {α : Type} (t : Table α) (name other : String) (value : α) :
    (t.insert name value).get? other = if name = other then some value else t.get? other := by
  obtain ⟨entries, sorted⟩ := t
  simp only [get?, insert]
  clear sorted
  induction entries with
  | nil =>
    by_cases h : name = other <;> simp [insertEntry, h]
  | cons entry rest ih =>
    rw [insertEntry]
    split
    · by_cases h : name = other <;> simp [h]
    · split
      · next he => by_cases h : name = other <;> simp [h, ← he]
      · next hne =>
        by_cases h : entry.1 = other
        · have : name ≠ other := fun hno => hne (hno.trans h.symm)
          simp [h, this]
        · simpa [h] using ih

end Table
end StampGrid
