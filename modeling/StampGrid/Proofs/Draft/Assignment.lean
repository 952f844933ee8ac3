import StampGrid.Draft
import StampGrid.Proofs.Script.Arguments
import StampGrid.Proofs.Text.Matching

/-!
# Assignments of variables

The form of an assignment is a pattern that captures a name and a value. On every text its
greedy search finds what is read from both ends of the text: whatever quotes the value holds,
the one that ends it is the last character that is not blank.
-/
namespace StampGrid

open Text

namespace Arguments

/-- `[A-Za-z][A-Za-z0-9_]*` -/
def namePattern : Pattern := .one Char.isAlpha ++ .many isNameChar

/-- `.+`, where the dot is any character but a newline. -/
def valuePattern : Pattern := .several (· != '\n')

/-- `^([A-Za-z][A-Za-z0-9_]*)="(.+)"\s*$` -/
def assignmentPattern : Pattern :=
  .start ++ .capture namePattern ++ .one (· == '=') ++ .one (· == '"') ++
    .capture valuePattern ++ .one (· == '"') ++ .many isBlank ++ .stop

/-- Without the blanks behind it the text is `NAME="VALUE"`. -/
structure IsAssignment (args name value : String) : Prop where
  text : trimEnd args.toList = name.toList ++ '=' :: '"' :: (value.toList ++ ['"'])
  /-- A letter is followed by letters, digits and underscores, all of them ASCII. -/
  name : ∃ c rest, name.toList = c :: rest ∧ c.isAlpha = true ∧
    ∀ b ∈ rest, b.isAlphanum = true ∨ b = '_'
  value : value ≠ "" ∧ '\n' ∉ value.toList

variable {args name value : String}

theorem assigns_iff_isAssignment : Assigns args name value ↔ IsAssignment args name value := by
  constructor
  · rintro ⟨blanks, hargs, hblanks, hname, hvalue⟩
    refine ⟨?_, isName_iff.mp hname, by simpa using isValue_iff.mp hvalue⟩
    rw [hargs, show name.toList ++ '=' :: '"' :: (value.toList ++ '"' :: blanks) =
      (name.toList ++ '=' :: '"' :: value.toList) ++ '"' :: blanks by simp,
      trimEnd_append_blanks (by decide) hblanks]
    simp
  · intro h
    obtain ⟨blanks, hargs, hblanks⟩ := exists_blanks_of_trimEnd args.toList
    exact ⟨blanks, by simpa [h.text] using hargs, hblanks, isName_iff.mpr h.name,
      isValue_iff.mpr (by simpa using h.value)⟩

section

variable {passed taken ahead : List Char} {xs : List (List Char)}

theorem takes_namePattern_iff :
    namePattern.Takes passed taken ahead xs ↔ isName taken = true ∧ xs = [] := by
  simp only [namePattern, Pattern.takes_append_iff, Pattern.takes_one_iff, Pattern.takes_many_iff]
  constructor
  · rintro ⟨_, rest, _, _, ⟨⟨c, hc, rfl⟩, rfl⟩, ⟨hrest, rfl⟩, rfl, rfl⟩
    exact ⟨Bool.and_eq_true_iff.mpr ⟨hc, List.all_eq_true.mpr hrest⟩, rfl⟩
  · rintro ⟨hname, rfl⟩
    cases taken with
    | nil => contradiction
    | cons c rest =>
      obtain ⟨hc, hrest⟩ := Bool.and_eq_true_iff.mp hname
      exact ⟨[c], rest, [], [], ⟨⟨c, hc, rfl⟩, rfl⟩, ⟨List.all_eq_true.mp hrest, rfl⟩, rfl, rfl⟩

theorem takes_valuePattern_iff :
    valuePattern.Takes passed taken ahead xs ↔ isValue taken = true ∧ xs = [] := by
  simp only [valuePattern, Pattern.several, Pattern.takes_append_iff, Pattern.takes_one_iff,
    Pattern.takes_many_iff, bne_iff_ne, isValue_iff]
  constructor
  · rintro ⟨_, rest, _, _, ⟨⟨c, hc, rfl⟩, rfl⟩, ⟨hrest, rfl⟩, rfl, rfl⟩
    refine ⟨⟨List.cons_ne_nil c rest, fun hmem => ?_⟩, rfl⟩
    rcases List.mem_cons.mp hmem with heq | hmem
    · exact hc heq.symm
    · exact hrest _ hmem rfl
  · rintro ⟨⟨hne, hnewline⟩, rfl⟩
    obtain ⟨c, rest, rfl⟩ := List.exists_cons_of_ne_nil hne
    obtain ⟨hc, hrest⟩ := List.forall_mem_cons.mp (List.forall_mem_ne.mpr hnewline)
    exact ⟨[c], rest, [], [], ⟨⟨c, Ne.symm hc, rfl⟩, rfl⟩,
      ⟨fun b hb => Ne.symm (hrest b hb), rfl⟩, rfl, rfl⟩

/-- The pattern takes a whole text that is an assignment, and nothing else. -/
theorem takes_assignmentPattern_iff :
    assignmentPattern.Takes passed taken ahead xs ↔ passed = [] ∧ ahead = [] ∧
      ∃ name value, Assigns (String.ofList taken) name value ∧
        xs = [name.toList, value.toList] := by
  have hparts : assignmentPattern.Takes passed taken ahead xs ↔
      ∃ blanks value name,
        (((passed = [] ∧ isName name = true) ∧ isValue value = true) ∧
          ∀ c ∈ blanks, isBlank c = true) ∧
        ahead = [] ∧ taken = name ++ '=' :: '"' :: (value ++ '"' :: blanks) ∧
        xs = [name, value] := by
    simp [assignmentPattern, takes_namePattern_iff, takes_valuePattern_iff]
  rw [hparts]
  constructor
  · rintro ⟨blanks, value, name, ⟨⟨⟨rfl, hname⟩, hvalue⟩, hblanks⟩, rfl, htaken, rfl⟩
    exact ⟨rfl, rfl, String.ofList name, String.ofList value,
      ⟨blanks, by simpa using htaken, hblanks, by simpa using hname, by simpa using hvalue⟩,
      by simp⟩
  · rintro ⟨rfl, rfl, name, value, ⟨blanks, htaken, hblanks, hname, hvalue⟩, rfl⟩
    exact ⟨blanks, _, _, ⟨⟨⟨rfl, hname⟩, hvalue⟩, hblanks⟩, rfl, by simpa using htaken, rfl⟩

end

/-- The search captures the name and the value that are read. -/
theorem captures?_assignmentPattern (args : String) :
    assignmentPattern.captures? args.toList =
      (assignment? args).map fun p => [p.1.toList, p.2.toList] := by
  rw [Pattern.captures?]
  cases hsearch : assignmentPattern.search args.toList with
  | some w =>
    obtain ⟨passed, hargs, htakes⟩ := Pattern.takes_of_search hsearch
    obtain ⟨rfl, hahead, name, value, hassigns, hcaptures⟩ := takes_assignmentPattern_iff.mp htakes
    have htext : String.ofList w.taken = args := by
      rw [← String.toList_inj, String.toList_ofList, hargs, hahead]
      simp
    rw [htext] at hassigns
    rw [assignment?_eq_some_iff.mpr hassigns, Option.map_some, Option.map_some, hcaptures]
  | none =>
    cases hread : assignment? args with
    | none => rfl
    | some p =>
      have htakes : assignmentPattern.Takes [] args.toList [] [p.1.toList, p.2.toList] :=
        takes_assignmentPattern_iff.mpr ⟨rfl, rfl, p.1, p.2,
          by rw [String.ofList_toList]; exact assignment?_eq_some_iff.mp hread, rfl⟩
      exact absurd htakes (Pattern.not_takes_of_search hsearch (by simp))

theorem captures?_eq_some_iff :
    assignmentPattern.captures? args.toList = some [name.toList, value.toList] ↔
      IsAssignment args name value := by
  rw [captures?_assignmentPattern, ← assigns_iff_isAssignment, ← assignment?_eq_some_iff]
  cases assignment? args <;> simp [Prod.ext_iff, String.toList_inj]

theorem IsAssignment.unique {name' value' : String} (h : IsAssignment args name value)
    (h' : IsAssignment args name' value') : name' = name ∧ value' = value := by
  have heq := captures?_eq_some_iff.mpr h
  rw [captures?_eq_some_iff.mpr h'] at heq
  simpa [String.toList_inj] using heq

end Arguments

namespace Draft

open Arguments

end Draft
end StampGrid
