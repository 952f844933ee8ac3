import Mathlib.Data.List.Basic
import Mathlib.Data.List.TakeWhile
import StampGrid.Proofs.Script.Words
import StampGrid.Proofs.Text.Integers
import StampGrid.Script.Arguments

/-!
# What argument texts say

Each reader of an argument text is compared with a relation that says which texts
are accepted, what they mean, and which fault the others cause. The relations speak
of the pieces between blanks and of the integers that these stand for, and not of
the way in which either is read.
-/
namespace StampGrid

namespace Text

theorem exists_blanks_of_trimEnd (cs : List Char) :
    ∃ blanks, cs = trimEnd cs ++ blanks ∧ ∀ c ∈ blanks, isBlank c = true := by
  refine ⟨(cs.reverse.takeWhile isBlank).reverse, ?_, fun c hc => ?_⟩
  · rw [trimEnd, ← List.reverse_append, List.takeWhile_append_dropWhile, List.reverse_reverse]
  · exact List.mem_takeWhile_imp (List.mem_reverse.mp hc)

theorem trimEnd_append_blanks {cs blanks : List Char} {c : Char} (hc : isBlank c = false)
    (hblanks : ∀ b ∈ blanks, isBlank b = true) :
    trimEnd (cs ++ c :: blanks) = cs ++ [c] := by
  have hrev : ∀ b ∈ blanks.reverse, isBlank b = true := fun b hb =>
    hblanks b (List.mem_reverse.mp hb)
  rw [trimEnd, List.reverse_append, List.reverse_cons, List.append_assoc,
    List.dropWhile_append_of_pos hrev, List.singleton_append,
    List.dropWhile_cons_of_neg (by simp [hc])]
  simp

end Text

namespace Arguments
open Text Text.Numeral

/-- The text is `NAME="VALUE"` with blanks behind it. -/
def Assigns (args name value : String) : Prop :=
  ∃ blanks, args.toList = name.toList ++ '=' :: '"' :: (value.toList ++ '"' :: blanks) ∧
    (∀ c ∈ blanks, isBlank c = true) ∧ isName name.toList = true ∧ isValue value.toList = true

/-- The pieces of the text between blanks, without the empty ones. -/
def fields (args : String) : List (List Char) :=
  (args.toList.splitOnP isBlank).filter (· ≠ [])

/-- The fields of the text are a name and the pieces of a path. -/
def Names (args name locator : String) : Prop :=
  ∃ first rest, fields args = name.toList :: first :: rest ∧
    locator.toList = (first :: rest).flatten

/-- The text declares an axis with these numbers. -/
def IsDeclaration (args name : String) (start stop step : ℤ) : Prop :=
  ∃ first second third more, fields args = name.toList :: first :: second :: third :: more ∧
    Denotes64 first start ∧ Denotes64 second stop ∧ Denotes64 third step ∧ step ≠ 0

/-- The text declares no axis, for this reason. -/
inductive Refusal (args : String) : Fault → Prop
  | tooFew (h : (fields args).length < 4) :
      Refusal args (.tooFewArguments "range" 4 (fields args).length)
  /-- The word is the leftmost of the three that stands for no integer of 64 bits. -/
  | notAnInteger {name word : List Char} {before after : List (List Char)}
      (h : fields args = name :: (before ++ word :: after)) (hmany : 4 ≤ (fields args).length)
      (hplace : before.length < 3) (hbefore : ∀ w ∈ before, ∃ v, Denotes64 w v)
      (hword : ¬ ∃ v, Denotes64 word v) :
      Refusal args (.notAnInteger (String.ofList word))
  | zeroStep {name first second third : List Char} {more : List (List Char)}
      (h : fields args = name :: first :: second :: third :: more)
      (hfirst : ∃ v, Denotes64 first v) (hsecond : ∃ v, Denotes64 second v)
      (hthird : Denotes64 third 0) :
      Refusal args (.zeroStep (String.ofList name))

theorem words_eq_fields (args : String) : words args.toList = fields args :=
  words_eq_splitOnP args.toList

theorem isName_iff {cs : List Char} :
    isName cs = true ↔ ∃ c rest, cs = c :: rest ∧ c.isAlpha = true ∧
      ∀ b ∈ rest, b.isAlphanum = true ∨ b = '_' := by
  cases cs <;> simp [isName, isNameChar]

theorem isValue_iff {cs : List Char} : isValue cs = true ↔ cs ≠ [] ∧ '\n' ∉ cs := by
  simp [isValue]

theorem isNameChar_of_isName {cs : List Char} (h : isName cs = true) :
    ∀ c ∈ cs, isNameChar c = true := by
  cases cs with
  | nil => simp
  | cons c cs =>
    obtain ⟨hc, hcs⟩ := Bool.and_eq_true_iff.mp h
    intro b hb
    rcases List.mem_cons.mp hb with rfl | hb
    · simp [isNameChar, Char.isAlphanum, hc]
    · exact List.all_eq_true.mp hcs b hb

theorem assignment?_eq_some_iff {args name value : String} :
    assignment? args = some (name, value) ↔ Assigns args name value := by
  constructor
  · intro h
    obtain ⟨blanks, hargs, hblanks⟩ := exists_blanks_of_trimEnd args.toList
    have hcut := (List.takeWhile_append_dropWhile (p := isNameChar) (l := trimEnd args.toList)).symm
    simp only [assignment?] at h
    generalize (trimEnd args.toList).dropWhile isNameChar = behind at h hcut
    split at h
    · next rest =>
      split at h
      · next hform =>
        simp only [Bool.and_eq_true, beq_iff_eq] at hform
        obtain ⟨⟨hname, hlast⟩, hvalue⟩ := hform
        simp only [Option.some.injEq, Prod.mk.injEq] at h
        obtain ⟨rfl, rfl⟩ := h
        rw [← List.dropLast_append_getLast? _ hlast] at hcut
        rw [hcut] at hargs
        exact ⟨blanks, by simpa using hargs, hblanks, by simpa using hname, by simpa using hvalue⟩
      · contradiction
    · contradiction
  · rintro ⟨blanks, hargs, hblanks, hname, hvalue⟩
    have hchars := isNameChar_of_isName hname
    have htrim : trimEnd args.toList = name.toList ++ '=' :: '"' :: (value.toList ++ ['"']) := by
      rw [hargs, show name.toList ++ '=' :: '"' :: (value.toList ++ '"' :: blanks) =
        (name.toList ++ '=' :: '"' :: value.toList) ++ '"' :: blanks by simp,
        trimEnd_append_blanks (by decide) hblanks]
      simp
    have hequals : isNameChar '=' = false := by decide
    simp [assignment?, htrim, List.takeWhile_append_of_pos hchars,
      List.dropWhile_append_of_pos hchars, hequals, hname, hvalue]

instance (args : String) : Decidable (∃ name value, Assigns args name value) :=
  decidable_of_iff ((assignment? args).isSome = true) (by
    simp only [Option.isSome_iff_exists, Prod.exists, assignment?_eq_some_iff])

theorem image_eq_ok_iff {args name locator : String} :
    image args = .ok (name, locator) ↔ Names args name locator := by
  simp only [image, Names, words_eq_fields]
  split
  · next first second rest h =>
    rw [h]
    constructor
    · intro heq
      obtain ⟨rfl, rfl⟩ := by simpa using heq
      exact ⟨second, rest, by simp⟩
    · rintro ⟨_, _, heq, hlocator⟩
      simp only [List.cons.injEq] at heq
      obtain ⟨rfl, rfl, rfl⟩ := heq
      rw [← hlocator]
      simp
  · next h =>
    refine iff_of_false (by simp) ?_
    rintro ⟨_, _, heq, -⟩
    exact h _ _ _ heq

theorem image_eq_error_iff {args : String} {cause : Fault} :
    image args = .error cause ↔ (fields args).length < 2 ∧
      cause = .tooFewArguments "img" 2 (fields args).length := by
  simp only [image, words_eq_fields]
  split
  · next name first rest h =>
    have hlength : ¬ rest.length + 1 + 1 < 2 := by omega
    simp [h, hlength]
  · next h =>
    have hlength : (fields args).length < 2 := by
      match hfields : fields args with
      | [] => simp
      | [_] => simp
      | name :: first :: rest => exact absurd hfields (h name first rest)
    simp [hlength, Keyword.name, eq_comm]

theorem toList_path (args : String) : (path args).toList = inked args.toList := by
  rw [path, String.toList_ofList, flatten_words]

theorem integer_of_denotes64 {word : List Char} {v : Int64} (h : Denotes64 word v.toInt) :
    integer word = .ok v := by simp [integer, int64?_eq_some_iff.mpr h]

theorem integer_of_not_denotes64 {word : List Char} (h : ¬ ∃ v, Denotes64 word v) :
    integer word = .error (.notAnInteger (String.ofList word)) := by
  rw [← isSome_int64?_iff, Option.not_isSome_iff_eq_none] at h
  simp [integer, h]

theorem axis_of_fields {args : String} {name first second third : List Char}
    {more : List (List Char)} (h : fields args = name :: first :: second :: third :: more) :
    axis args = (do
      let start ← integer first
      let stop ← integer second
      let step ← integer third
      if h : step = 0 then .error (.zeroStep (String.ofList name))
      else .ok ⟨String.ofList name, ⟨start, stop, step, h⟩⟩) := by
  simp only [axis, words_eq_fields, h]

theorem axis_of_isDeclaration {args : String} {a : Axis}
    (h : IsDeclaration args a.name a.stride.start.toInt a.stride.stop.toInt a.stride.step.toInt) :
    axis args = .ok a := by
  obtain ⟨first, second, third, more, hfields, hstart, hstop, hstep, -⟩ := h
  rw [axis_of_fields hfields, integer_of_denotes64 hstart, integer_of_denotes64 hstop,
    integer_of_denotes64 hstep]
  simp [bind, Except.bind, a.stride.step_ne_zero]

theorem axis_of_refusal {args : String} {cause : Fault} (h : Refusal args cause) :
    axis args = .error cause := by
  have hread {w : List Char} (hw : ∃ v, Denotes64 w v) : ∃ v, integer w = .ok v := by
    obtain ⟨v, hv⟩ := hw
    obtain ⟨x, rfl, -⟩ := hv.exists_int64
    exact ⟨x, integer_of_denotes64 hv⟩
  cases h with
  | tooFew h =>
    simp only [axis, words_eq_fields]
    split
    · next hfields =>
      simp only [hfields, List.length_cons] at h
      omega
    · rfl
  | @notAnInteger name word before after h hmany hplace hbefore hword =>
    have hfails := integer_of_not_denotes64 hword
    rw [h] at hmany
    match before, after with
    | [], second :: third :: more =>
      rw [axis_of_fields h, hfails]
      rfl
    | [first], third :: more =>
      obtain ⟨start, hstart⟩ := hread (hbefore first (by simp))
      rw [axis_of_fields h, hstart, hfails]
      rfl
    | [first, second], more =>
      obtain ⟨start, hstart⟩ := hread (hbefore first (by simp))
      obtain ⟨stop, hstop⟩ := hread (hbefore second (by simp))
      rw [axis_of_fields h, hstart, hstop, hfails]
      rfl
  | zeroStep h hfirst hsecond hthird =>
    obtain ⟨start, hstart⟩ := hread hfirst
    obtain ⟨stop, hstop⟩ := hread hsecond
    rw [axis_of_fields h, hstart, hstop, integer_of_denotes64 (v := 0) hthird]
    rfl

/-- The numbers of a declaration are those of a stride. -/
theorem IsDeclaration.exists_stride {args name : String} {start stop step : ℤ}
    (h : IsDeclaration args name start stop step) : ∃ stride : Stride,
      stride.start.toInt = start ∧ stride.stop.toInt = stop ∧ stride.step.toInt = step := by
  obtain ⟨first, second, third, more, -, hfirst, hsecond, hthird, hne⟩ := h
  obtain ⟨a, ha, -⟩ := hfirst.exists_int64
  obtain ⟨b, hb, -⟩ := hsecond.exists_int64
  obtain ⟨c, hc, -⟩ := hthird.exists_int64
  have hstep : c ≠ 0 := by rintro rfl; exact hne hc.symm
  exact ⟨⟨a, b, c, hstep⟩, ha, hb, hc⟩

/-- A text declares an axis or has a fault that says why not. -/
theorem isDeclaration_or_refusal (args : String) :
    (∃ a : Axis, IsDeclaration args a.name a.stride.start.toInt a.stride.stop.toInt
      a.stride.step.toInt) ∨ ∃ cause, Refusal args cause := by
  match h : fields args with
  | [] | [_] | [_, _] | [_, _, _] => exact .inr ⟨_, .tooFew (by simp [h])⟩
  | name :: first :: second :: third :: more =>
    have hmany : 4 ≤ (fields args).length := by simp [h]
    by_cases hfirst : ∃ v, Denotes64 first v
    case neg =>
      exact .inr ⟨_, @Refusal.notAnInteger args name first [] _ h hmany (by simp) (by simp) hfirst⟩
    by_cases hsecond : ∃ v, Denotes64 second v
    case neg =>
      exact .inr ⟨_, @Refusal.notAnInteger args name second [first] _ h hmany (by simp) (by simpa)
        hsecond⟩
    by_cases hthird : ∃ v, Denotes64 third v
    case neg =>
      exact .inr ⟨_, @Refusal.notAnInteger args name third [first, second] _ h hmany (by simp)
        (by simp [hfirst, hsecond]) hthird⟩
    obtain ⟨step, hstep⟩ := hthird
    by_cases hzero : step = 0
    · subst hzero
      exact .inr ⟨_, .zeroStep h hfirst hsecond hstep⟩
    · obtain ⟨start, hstart⟩ := hfirst
      obtain ⟨stop, hstop⟩ := hsecond
      have hform : IsDeclaration args (String.ofList name) start stop step :=
        ⟨first, second, third, more, by simpa using h, hstart, hstop, hstep, hzero⟩
      obtain ⟨stride, rfl, rfl, rfl⟩ := hform.exists_stride
      exact .inl ⟨⟨String.ofList name, stride⟩, hform⟩

theorem axis_eq_ok_iff {args : String} {a : Axis} : axis args = .ok a ↔
    IsDeclaration args a.name a.stride.start.toInt a.stride.stop.toInt a.stride.step.toInt := by
  refine ⟨fun h => ?_, axis_of_isDeclaration⟩
  rcases isDeclaration_or_refusal args with ⟨b, hform⟩ | ⟨cause, hrefusal⟩
  · rw [axis_of_isDeclaration hform, Except.ok.injEq] at h
    rwa [← h]
  · rw [axis_of_refusal hrefusal] at h
    contradiction

theorem axis_eq_error_iff {args : String} {cause : Fault} :
    axis args = .error cause ↔ Refusal args cause := by
  refine ⟨fun h => ?_, axis_of_refusal⟩
  rcases isDeclaration_or_refusal args with ⟨a, hform⟩ | ⟨other, hrefusal⟩
  · rw [axis_of_isDeclaration hform] at h
    contradiction
  · rw [axis_of_refusal hrefusal, Except.error.injEq] at h
    rwa [← h]

end Arguments
end StampGrid
