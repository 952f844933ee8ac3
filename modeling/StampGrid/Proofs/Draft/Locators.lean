import StampGrid.Proofs.Draft.Effects

/-!
# Locators read through white space

The arguments of `img` are a name and, behind white space, a locator; those of `miff` are a
locator alone. A locator is what its text holds besides white space, so white space may stand
anywhere in it, and how much of it stands between name and locator does not matter either.
-/
namespace StampGrid

open Text

namespace Arguments

/-- The text names an image: its first word is the name, and the characters that come behind
the word and are not blank are the locator. There is at least one of them. -/
def IsNaming (args name locator : String) : Prop :=
  ∃ blanks behind, args.toList = blanks ++ name.toList ++ behind ∧
    (∀ c ∈ blanks, isBlank c = true) ∧ IsWord name.toList ∧
    (∀ c ∈ behind.head?, isBlank c = true) ∧ locator.toList = inked behind ∧ locator ≠ ""

/-- The text is white space, and there is some. -/
def IsGap (text : String) : Prop := text ≠ "" ∧ ∀ c ∈ text.toList, isBlank c = true

instance (text : String) : Decidable (IsGap text) :=
  decidable_of_iff (text ≠ "" ∧ text.toList.all isBlank = true) (by simp [IsGap])

variable {args name locator : String}

theorem names_iff_isNaming : Names args name locator ↔ IsNaming args name locator := by
  constructor
  · rintro ⟨first, rest, hfields, hlocator⟩
    rw [← words_eq_fields] at hfields
    obtain ⟨blanks, behind, hargs, hblanks, hname, hhead, hbehind⟩ := words_eq_cons_iff.mp hfields
    rw [← hbehind, flatten_words] at hlocator
    refine ⟨blanks, behind, hargs, hblanks, hname, hhead, hlocator, fun hempty => ?_⟩
    rw [hempty, String.toList_empty, eq_comm, ← words_eq_nil_iff, hbehind] at hlocator
    exact List.cons_ne_nil first rest hlocator
  · rintro ⟨blanks, behind, hargs, hblanks, hname, hhead, hlocator, hne⟩
    have hink : words behind ≠ [] := fun hnil =>
      hne (String.toList_eq_nil_iff.mp (hlocator.trans (words_eq_nil_iff.mp hnil)))
    obtain ⟨first, rest, hbehind⟩ := List.exists_cons_of_ne_nil hink
    refine ⟨first, rest, ?_, by rw [hlocator, ← flatten_words, hbehind]⟩
    rw [← words_eq_fields]
    exact words_eq_cons_iff.mpr ⟨blanks, behind, hargs, hblanks, hname, hhead, hbehind⟩

/-- Where the first word is set apart, the image is told by the ink behind it. -/
theorem image_of_words {first : List Char} {behind : List Char}
    (h : words args.toList = first :: words behind) :
    image args = if inked behind = [] then .error (.tooFewArguments "img" 2 1)
      else .ok (String.ofList first, String.ofList (inked behind)) := by
  simp only [image, h]
  cases hbehind : words behind with
  | nil => simp [words_eq_nil_iff.mp hbehind, Keyword.name]
  | cons piece pieces =>
    have hink : inked behind ≠ [] := fun hnil => by simp [words_eq_nil_iff.mpr hnil] at hbehind
    rw [if_neg hink, ← flatten_words, hbehind]

theorem words_append_isGap {gap : String} (h : IsGap gap) (front back : String) :
    words (front ++ gap ++ back).toList = words front.toList ++ words back.toList := by
  rw [String.toList_append, String.toList_append]
  exact words_append_gap (by simpa using h.1) h.2 _ _

end Arguments

namespace Draft

open Arguments

variable {d d' : Draft} {args args' : String}

theorem apply_img_eq_ok_iff : d.apply .img args = .ok d' ↔
    ∃ name locator, Arguments.image args = .ok (name, locator) ∧ d' = d.setImage name locator := by
  cases h : Arguments.image args with
  | error cause => simp [apply, h, Except.map]
  | ok image =>
    obtain ⟨name, locator⟩ := image
    simp [apply, h, Except.map, eq_comm]

theorem apply_img_eq_error_iff {cause : Fault} :
    d.apply .img args = .error cause ↔
      (fields args).length < 2 ∧ cause = .tooFewArguments "img" 2 (fields args).length := by
  rw [← image_eq_error_iff]
  cases h : Arguments.image args <;> simp [apply, h, Except.map]

theorem eq_setImage_iff {name locator : String} : d' = d.setImage name locator ↔
    d.images.Rebound name locator d'.images ∧ d' = { d with images := d'.images } := by
  constructor
  · intro h
    subst d'
    exact ⟨Table.rebound_insert d.images name locator, rfl⟩
  · rintro ⟨⟨hname, hothers⟩, heq⟩
    have himages : d'.images = d.images.insert name locator := by
      refine Table.ext_get? fun other => ?_
      rw [Table.get?_insert]
      split
      · next h => rw [← h, hname]
      · next h => exact hothers other (Ne.symm h)
    rw [heq, himages, setImage]

/-- Both commands are carried out for the words of their arguments. -/
theorem apply_congr_words {command : Keyword} (hcommand : command ∈ [Keyword.img, .miff])
    (h : words args.toList = words args'.toList) :
    d.apply command args = d.apply command args' := by
  simp only [List.mem_cons, List.not_mem_nil, or_false] at hcommand
  rcases hcommand with hcommand | hcommand <;> subst command
  · simp only [apply, Arguments.image, h]
  · simp only [apply, path, h]

theorem apply_miff (d : Draft) (args : String) : d.apply .miff args = .ok { d with
    initial? := if inked args.toList = [] then none
      else some (String.ofList (inked args.toList)) } := by
  have hpath : path args = String.ofList (inked args.toList) := by
    rw [← toList_path, String.ofList_toList]
  simp only [apply, setInitial, hpath, String.ofList_eq_empty_iff]

/-- What `img` and `miff` make of their arguments, whatever they are. `img` is refused, with the
number of fields, exactly if there are fewer than two, and then changes nothing; otherwise it
binds the first field to all that is not blank behind it. `miff` starts from all that is not
blank, or from nowhere if there is nothing. So white space may be replaced by other white
space in both; and in a locator, which is what follows the name and the gap of `img` and all
of `miff`, white space may come and go anywhere. -/
theorem apply_locators (d : Draft) :
    (∀ args cause, d.apply .img args = .error cause ↔
      (fields args).length < 2 ∧ cause = .tooFewArguments "img" 2 (fields args).length) ∧
    (∀ args line cause, d.run ⟨line, "img", args⟩ =
        (.error (.atLine line cause), { d with line := line }) ↔
      (fields args).length < 2 ∧ cause = .tooFewArguments "img" 2 (fields args).length) ∧
    (∀ args d', d.apply .img args = .ok d' ↔ ∃ name locator, IsNaming args name locator ∧
      d.images.Rebound name locator d'.images ∧ d' = { d with images := d'.images }) ∧
    (∀ args, d.apply .miff args = .ok { d with
      initial? := if inked args.toList = [] then none
        else some (String.ofList (inked args.toList)) }) ∧
    (∀ command ∈ [Keyword.img, .miff], ∀ front gap gap' back, IsGap gap → IsGap gap' →
      d.apply command (front ++ gap ++ back) = d.apply command (front ++ gap' ++ back)) ∧
    (∀ blanks name gap rest rest', (∀ c ∈ blanks.toList, isBlank c = true) →
      IsWord name.toList → IsGap gap → inked rest.toList = inked rest'.toList →
      d.apply .img (blanks ++ name ++ gap ++ rest) =
        d.apply .img (blanks ++ name ++ gap ++ rest')) ∧
    ∀ args args', inked args.toList = inked args'.toList →
      d.apply .miff args = d.apply .miff args' := by
  refine ⟨fun args cause => apply_img_eq_error_iff, fun args line cause => ⟨fun h => ?_, ?_⟩,
    fun args d' => ?_, apply_miff d, fun command hcommand front gap gap' back hgap hgap' => ?_,
    fun blanks name gap rest rest' hblanks hname hgap hink => ?_, fun args args' hink => ?_⟩
  · obtain ⟨cause', hcause', heq⟩ :=
      (@run_name_eq_error_iff d line .img args _).mp (congrArg Prod.fst h)
    rw [(Fault.atLine.inj heq).2]
    exact apply_img_eq_error_iff.mp hcause'
  · rintro ⟨hfew, hcause⟩
    rw [hcause]
    exact run_of_fails d (.image rfl hfew)
  · simp only [apply_img_eq_ok_iff, image_eq_ok_iff, names_iff_isNaming, eq_setImage_iff]
  · refine apply_congr_words hcommand ?_
    rw [words_append_isGap hgap, words_append_isGap hgap']
  · have hwords (rest : String) : words (blanks ++ name ++ gap ++ rest).toList =
        name.toList :: words rest.toList := by
      have hfirst : words (blanks ++ name).toList = [name.toList] := by
        rw [String.toList_append, words_blanks_append hblanks, words_of_isWord hname]
      rw [words_append_isGap hgap, hfirst, List.singleton_append]
    simp only [apply, image_of_words (hwords rest), image_of_words (hwords rest'), hink]
  · rw [apply_miff, apply_miff, hink]

/-- White space of other kinds in front of the name, behind it and within the locator. -/
theorem apply_locators_respaced :
    IsGap "\u00A0 " ∧ inked "a b\t.png".toList = inked "ab\u2028.png".toList ∧
    ({} : Draft).apply .img ("\u3000" ++ "fg" ++ "\u00A0 " ++ "a b\t.png") =
      ({} : Draft).apply .img ("\u3000" ++ "fg" ++ "\u00A0 " ++ "ab\u2028.png") ∧
    ({} : Draft).apply .miff "a b\t.png" = ({} : Draft).apply .miff "ab\u2028.png" := by
  have hgap : IsGap "\u00A0 " := by decide
  have hink : inked "a b\t.png".toList = inked "ab\u2028.png".toList := by decide
  have hblanks : ∀ c ∈ "\u3000".toList, isBlank c = true := List.all_eq_true.mp (by decide)
  obtain ⟨-, -, -, -, -, himg, hmiff⟩ := apply_locators {}
  exact ⟨hgap, hink, himg _ _ _ _ _ hblanks (by decide) hgap hink, hmiff _ _ hink⟩

end Draft
end StampGrid
