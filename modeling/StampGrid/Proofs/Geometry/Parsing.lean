import StampGrid.Geometry
import StampGrid.Proofs.Script.Arguments
import StampGrid.Proofs.Script.Words
import StampGrid.Proofs.Text.Integers

/-!
# The texts of sizes

A size is written as two numbers with a letter x between them, small or capital. White space may
stand around each number, and a plus and any number of zeros in front of it; it is at least one
and has at most 32 bits. Every other text is refused, because it has no x, or because of the part
on one side of its first x.
-/
namespace StampGrid

namespace Text

variable {cs core core' : List Char} {c : Char}

/-- What remains of a text without the blanks at its ends. -/
structure Trims (cs core : List Char) : Prop where
  around : ∃ before after, cs = before ++ core ++ after ∧ (∀ c ∈ before, isBlank c = true) ∧
    ∀ c ∈ after, isBlank c = true
  first : ∀ c ∈ core.head?, isBlank c = false
  last : ∀ c ∈ core.getLast?, isBlank c = false

theorem isBlank_of_head?_dropWhile (h : c ∈ (cs.dropWhile isBlank).head?) : isBlank c = false := by
  have hhead := List.head?_dropWhile_not isBlank cs
  rw [h] at hhead
  simpa using hhead

theorem trims_trim (cs : List Char) : Trims cs (trim cs) := by
  obtain ⟨after, hstart, hafter⟩ := exists_blanks_of_trimEnd (trimStart cs)
  refine ⟨⟨cs.takeWhile isBlank, after, ?_, fun c => List.mem_takeWhile_imp, hafter⟩,
    fun c hc => ?_, fun c hc => ?_⟩
  · rw [trim, List.append_assoc, ← hstart, trimStart, List.takeWhile_append_dropWhile]
  · have hc' : c ∈ (trimStart cs).head? := by
      rw [trim] at hc
      rw [hstart, List.head?_append, hc]
      rfl
    exact isBlank_of_head?_dropWhile hc'
  · rw [trim, trimEnd, List.getLast?_reverse] at hc
    exact isBlank_of_head?_dropWhile hc

/-- Trimming takes off the blanks at both ends, and nothing else. -/
theorem trim_eq_iff : trim cs = core ↔ Trims cs core := by
  constructor
  · intro h
    exact h ▸ trims_trim cs
  · rintro ⟨⟨before, after, hcs, hbefore, hafter⟩, hfirst, hlast⟩
    rw [trim, trimStart, hcs, List.append_assoc, List.dropWhile_append_of_pos hbefore]
    cases core using List.reverseRecOn with
    | nil =>
      have hnone : after.dropWhile isBlank = [] := List.dropWhile_eq_nil_iff.mpr hafter
      rw [List.nil_append, hnone]
      rfl
    | append_singleton front b =>
      have hb : isBlank b = false := hlast b (by simp)
      have hink : (front ++ [b] ++ after).dropWhile isBlank = front ++ [b] ++ after := by
        cases front with
        | nil => simp [hb]
        | cons c front => simp [hfirst c rfl]
      rw [hink, List.append_assoc, List.singleton_append, trimEnd_append_blanks hb hafter]

theorem Trims.unique (h : Trims cs core) (h' : Trims cs core') : core = core' :=
  (trim_eq_iff.mpr h).symm.trans (trim_eq_iff.mpr h')

end Text

namespace Geometry

open Text Text.Numeral

/-- The text is parted at its first separator. -/
def IsParted (text left right : List Char) : Prop :=
  ∃ sep, text = left ++ sep :: right ∧ isSeparator sep = true ∧
    ∀ c ∈ left, isSeparator c = false

/-- The text is a number from 1 to 2^32 - 1 between blanks. -/
def IsDimension (part : List Char) (n : ℕ) : Prop :=
  ∃ core, Trims part core ∧ DenotesNat core n ∧ 1 ≤ n ∧ n ≤ 2 ^ 32 - 1

/-- The text is the size: its width in front of the first separator, its height behind it. -/
def Spells (text : String) (size : Geometry) : Prop :=
  ∃ left right, IsParted text.toList left right ∧ IsDimension left size.width ∧
    IsDimension right size.height

/-- The text is no size, for this reason. -/
inductive Refusal (text : String) : Malformed → Prop
  | noSeparator (h : ∀ c ∈ text.toList, isSeparator c = false) : Refusal text (.noSeparator text)
  | badWidth {left right : List Char} (h : IsParted text.toList left right)
      (hleft : ¬ ∃ n, IsDimension left n) :
      Refusal text (.badDimension (String.ofList left) text)
  | badHeight {left right : List Char} (h : IsParted text.toList left right)
      (hleft : ∃ n, IsDimension left n) (hright : ¬ ∃ n, IsDimension right n) :
      Refusal text (.badDimension (String.ofList right) text)

/-- What makes a text no size, whatever else it holds. -/
inductive Flaw (text : List Char) : Prop
  | separators (h : 1 < text.countP isSeparator)
  | minus (h : '-' ∈ text)
  | emptyPart {left right : List Char} (h : IsParted text left right)
      (hempty : Trims left [] ∨ Trims right [])
  | outOfRange {left right core : List Char} {n : ℕ} (h : IsParted text left right)
      (hcore : Trims left core ∨ Trims right core) (hn : DenotesNat core n)
      (hrange : n = 0 ∨ 2 ^ 32 ≤ n)

variable {text : String} {cs part core left right left' right' : List Char} {n : ℕ}
  {size : Geometry} {cause : Malformed}

theorem dimension?_eq_some_iff : dimension? part = some n ↔ IsDimension part n := by
  rw [dimension?, Option.filter_eq_some_iff, unsignedBelow?_eq_some_iff, decide_eq_true_eq]
  constructor
  · rintro ⟨⟨hn, hbelow⟩, hpos⟩
    exact ⟨trim part, trims_trim part, hn, hpos, Nat.le_sub_one_of_lt hbelow⟩
  · rintro ⟨core, hcore, hn, hpos, hmost⟩
    rw [trim_eq_iff.mpr hcore]
    exact ⟨⟨hn, Nat.lt_of_le_sub_one (by decide) hmost⟩, hpos⟩

theorem dimension?_eq_none_iff : dimension? part = none ↔ ¬ ∃ n, IsDimension part n := by
  simp [← dimension?_eq_some_iff, Option.eq_none_iff_forall_ne_some]

/-- The first separator is in one place. -/
theorem isParted_iff : IsParted cs left right ↔ ∃ sep,
    cs.takeWhile (fun c => !isSeparator c) = left ∧
      cs.dropWhile (fun c => !isSeparator c) = sep :: right := by
  constructor
  · rintro ⟨sep, hcs, hsep, hleft⟩
    have hkept : ∀ c ∈ left, (!isSeparator c) = true := by simpa using hleft
    refine ⟨sep, ?_, ?_⟩
    · simp [hcs, List.takeWhile_append_of_pos hkept, hsep]
    · simp [hcs, List.dropWhile_append_of_pos hkept, hsep]
  · rintro ⟨sep, hleft, hright⟩
    refine ⟨sep, ?_, ?_, fun c hc => ?_⟩
    · rw [← hleft, ← hright, List.takeWhile_append_dropWhile]
    · have hhead := List.head?_dropWhile_not (fun c => !isSeparator c) cs
      rw [hright] at hhead
      simpa using hhead
    · rw [← hleft] at hc
      simpa using List.mem_takeWhile_imp hc

theorem IsParted.unique (h : IsParted cs left right) (h' : IsParted cs left' right') :
    left = left' ∧ right = right' := by
  obtain ⟨sep, hleft, hright⟩ := isParted_iff.mp h
  obtain ⟨sep', hleft', hright'⟩ := isParted_iff.mp h'
  exact ⟨hleft.symm.trans hleft', (List.cons.inj (hright.symm.trans hright')).2⟩

theorem Spells.parse_eq (h : Spells text size) : parse text = .ok size := by
  obtain ⟨left, right, hparted, hwidth, hheight⟩ := h
  obtain ⟨sep, hfront, hbehind⟩ := isParted_iff.mp hparted
  simp only [parse, hfront, hbehind, dimension?_eq_some_iff.mpr hwidth,
    dimension?_eq_some_iff.mpr hheight]

theorem Refusal.parse_eq (h : Refusal text cause) : parse text = .error cause := by
  cases h with
  | noSeparator h =>
    have hnone : text.toList.dropWhile (fun c => !isSeparator c) = [] :=
      List.dropWhile_eq_nil_iff.mpr (by simpa using h)
    simp only [parse, hnone]
  | badWidth h hleft =>
    obtain ⟨sep, hfront, hbehind⟩ := isParted_iff.mp h
    simp only [parse, hfront, hbehind, dimension?_eq_none_iff.mpr hleft]
  | badHeight h hleft hright =>
    obtain ⟨sep, hfront, hbehind⟩ := isParted_iff.mp h
    obtain ⟨n, hn⟩ := hleft
    simp only [parse, hfront, hbehind, dimension?_eq_some_iff.mpr hn,
      dimension?_eq_none_iff.mpr hright]

/-- Every text is a size or is refused. -/
theorem spells_or_refusal (text : String) :
    (∃ size, Spells text size) ∨ ∃ cause, Refusal text cause := by
  by_cases hsep : ∀ c ∈ text.toList, isSeparator c = false
  · exact .inr ⟨_, .noSeparator hsep⟩
  · obtain ⟨sep, right, hright⟩ : ∃ sep right,
        text.toList.dropWhile (fun c => !isSeparator c) = sep :: right := by
      refine List.exists_cons_of_ne_nil fun hnil => hsep ?_
      simpa using List.dropWhile_eq_nil_iff.mp hnil
    have hparted : IsParted text.toList _ right := isParted_iff.mpr ⟨sep, rfl, hright⟩
    by_cases hwidth : ∃ n, IsDimension (text.toList.takeWhile fun c => !isSeparator c) n
    · by_cases hheight : ∃ n, IsDimension right n
      · obtain ⟨width, hwidth⟩ := hwidth
        obtain ⟨height, hheight⟩ := hheight
        exact .inl ⟨⟨width, height⟩, _, right, hparted, hwidth, hheight⟩
      · exact .inr ⟨_, .badHeight hparted hwidth hheight⟩
    · exact .inr ⟨_, .badWidth hparted hwidth⟩

theorem parse_eq_ok_iff : parse text = .ok size ↔ Spells text size := by
  refine ⟨fun h => ?_, Spells.parse_eq⟩
  rcases spells_or_refusal text with ⟨size', hsize'⟩ | ⟨cause, hcause⟩
  · rw [hsize'.parse_eq] at h
    exact Except.ok.inj h ▸ hsize'
  · rw [hcause.parse_eq] at h
    contradiction

theorem parse_eq_error_iff : parse text = .error cause ↔ Refusal text cause := by
  refine ⟨fun h => ?_, Refusal.parse_eq⟩
  rcases spells_or_refusal text with ⟨size, hsize⟩ | ⟨cause', hcause'⟩
  · rw [hsize.parse_eq] at h
    contradiction
  · rw [hcause'.parse_eq] at h
    exact Except.error.inj h ▸ hcause'

/-- What a dimension is made of. -/
theorem IsDimension.mem (h : IsDimension part n) {c : Char} (hc : c ∈ part) :
    isBlank c = true ∨ c = '+' ∨ c.isDigit = true := by
  obtain ⟨core, ⟨⟨before, after, hpart, hbefore, hafter⟩, -, -⟩, hn, -⟩ := h
  rw [hpart, List.mem_append, List.mem_append] at hc
  rcases hc with (hc | hc) | hc
  · exact .inl (hbefore c hc)
  · exact .inr (hn.mem hc)
  · exact .inl (hafter c hc)

/-- A part of a size holds no separator and no minus: it is blanks, a plus and digits. -/
theorem IsDimension.notMem (h : IsDimension part n) {c : Char} (hink : isBlank c = false)
    (hplus : c ≠ '+') (hdigit : c.isDigit = false) : c ∉ part := fun hc => by
  rcases h.mem hc with hblank | heq | hd
  · rw [hink] at hblank
    contradiction
  · exact hplus heq
  · rw [hdigit] at hd
    contradiction

theorem IsDimension.isSeparator_eq_false (h : IsDimension part n) :
    ∀ c ∈ part, isSeparator c = false := fun c hc => by
  rw [Bool.eq_false_iff]
  intro hsep
  obtain heq | heq : c = 'x' ∨ c = 'X' := by simpa [isSeparator] using hsep
  all_goals
    subst c
    exact h.notMem (by decide) (by decide) (by decide) hc

theorem IsDimension.of_trims (h : IsDimension part n) (hcore : Trims part core) :
    DenotesNat core n ∧ 1 ≤ n ∧ n ≤ 2 ^ 32 - 1 := by
  obtain ⟨core', hcore', hrange⟩ := h
  exact hcore.unique hcore' ▸ hrange

theorem IsDimension.not_trims_nil (h : IsDimension part n) : ¬ Trims part [] := fun hnil =>
  (h.of_trims hnil).1.ne_nil rfl

theorem IsDimension.not_trims {m : ℕ} (h : IsDimension part n) (hm : DenotesNat core m)
    (hrange : m = 0 ∨ 2 ^ 32 ≤ m) : ¬ Trims part core := fun hcore => by
  obtain ⟨hn, hpos, hmost⟩ := h.of_trims hcore
  have heq : m = n := hm.unique hn
  omega

theorem Flaw.not_spells (h : Flaw text.toList) : ¬ Spells text size := by
  rintro ⟨left, right, hparted, hwidth, hheight⟩
  have ⟨sep, htext, hsep, _⟩ := hparted
  cases h with
  | separators h =>
    have hleft : left.countP isSeparator = 0 := by simpa using hwidth.isSeparator_eq_false
    have hright : right.countP isSeparator = 0 := by simpa using hheight.isSeparator_eq_false
    rw [htext, List.countP_append, List.countP_cons_of_pos hsep, hleft, hright] at h
    omega
  | minus h =>
    rw [htext, List.mem_append, List.mem_cons] at h
    rcases h with h | h | h
    · exact hwidth.notMem (by decide) (by decide) (by decide) h
    · subst sep
      contradiction
    · exact hheight.notMem (by decide) (by decide) (by decide) h
  | emptyPart h hempty =>
    obtain ⟨hleft, hright⟩ := h.unique hparted
    subst hleft hright
    exact hempty.elim hwidth.not_trims_nil hheight.not_trims_nil
  | outOfRange h hcore hm hrange =>
    obtain ⟨hleft, hright⟩ := h.unique hparted
    subst hleft hright
    exact hcore.elim (hwidth.not_trims hm hrange) (hheight.not_trims hm hrange)

/-- A number in decimal digits is a dimension with any blanks around it. -/
theorem isDimension_decimal {before after : String}
    (hbefore : ∀ c ∈ before.toList, isBlank c = true)
    (hafter : ∀ c ∈ after.toList, isBlank c = true) (hpos : 1 ≤ n) (hmost : n ≤ 2 ^ 32 - 1) :
    IsDimension (before ++ decimal n ++ after).toList n := by
  have hword : IsWord (digits n) := isWord_ofInt n
  refine ⟨digits n, ⟨⟨before.toList, after.toList, ?_, hbefore, hafter⟩, fun c hc => ?_,
    fun c hc => ?_⟩, .bare (isRow_digits n), hpos, hmost⟩
  · simp [decimal]
  · exact hword.2 c (List.mem_of_head? hc)
  · exact hword.2 c (List.mem_of_getLast? hc)

/-- Which texts are sizes, and of which size. A text is read as a size exactly if it has a
separator and, on each side of its first one, a number of 32 bits that is not zero, with white
space around it and with a plus and zeros in front of it or without. Otherwise it is refused, for
the want of a separator or for the first part that is no such number: so it is if it has a second
separator, a minus, a part with nothing in it, or a number that is zero or too large. And a size
written in decimal digits is read as that size, with any white space around its numbers. -/
theorem parse_grammar :
    (∀ text size, parse text = .ok size ↔ Spells text size) ∧
    (∀ text cause, parse text = .error cause ↔ Refusal text cause) ∧
    (∀ text, Flaw text.toList → ∃ cause, parse text = .error cause) ∧
    ∀ (size : Geometry) (sep : Char) (before after before' after' : String),
      1 ≤ size.width ∧ size.width ≤ 2 ^ 32 - 1 → 1 ≤ size.height ∧ size.height ≤ 2 ^ 32 - 1 →
      isSeparator sep = true →
      (∀ gap ∈ [before, after, before', after'], ∀ c ∈ gap.toList, isBlank c = true) →
      parse (before ++ decimal size.width ++ after ++ String.singleton sep ++
        before' ++ decimal size.height ++ after') = .ok size := by
  refine ⟨fun text size => parse_eq_ok_iff, fun text cause => parse_eq_error_iff,
    fun text hflaw => ?_, fun size sep before after before' after' hwidth hheight hsep hgaps => ?_⟩
  · rcases spells_or_refusal text with ⟨size, hsize⟩ | ⟨cause, hcause⟩
    · exact absurd hsize hflaw.not_spells
    · exact ⟨cause, hcause.parse_eq⟩
  · simp only [List.forall_mem_cons] at hgaps
    obtain ⟨hbefore, hafter, hbefore', hafter', -⟩ := hgaps
    have hleft := isDimension_decimal hbefore hafter hwidth.1 hwidth.2
    have hright := isDimension_decimal hbefore' hafter' hheight.1 hheight.2
    refine Spells.parse_eq ⟨_, _, ⟨sep, ?_, hsep, hleft.isSeparator_eq_false⟩, hleft, hright⟩
    simp

/-- A height that is one too large, and the largest width with its blanks around it. -/
theorem parse_grammar_bounds :
    Flaw "1x4294967296".toList ∧ (∃ cause, parse "1x4294967296" = .error cause) ∧
    isSeparator 'X' = true ∧
    (∀ gap ∈ ["\t", "\u3000 ", "", "\u00A0"], ∀ c ∈ gap.toList, isBlank c = true) ∧
    parse ("\t" ++ decimal 4294967295 ++ "\u3000 " ++ String.singleton 'X' ++
      "" ++ decimal 1 ++ "\u00A0") = .ok ⟨4294967295, 1⟩ := by
  have hparted : IsParted "1x4294967296".toList ['1'] "4294967296".toList :=
    isParted_iff.mpr ⟨'x', by decide, by decide⟩
  have hcore : Trims "4294967296".toList "4294967296".toList := trim_eq_iff.mp (by decide)
  have hn : DenotesNat "4294967296".toList 4294967296 := unsigned?_eq_some_iff.mp (by decide)
  have hflaw : Flaw "1x4294967296".toList :=
    .outOfRange hparted (.inr hcore) hn (.inr (by decide))
  have hgaps : ∀ gap ∈ ["\t", "\u3000 ", "", "\u00A0"], ∀ c ∈ gap.toList, isBlank c = true := by
    simp only [← List.all_eq_true]
    decide
  obtain ⟨-, -, hrefused, hread⟩ := parse_grammar
  exact ⟨hflaw, hrefused _ hflaw, rfl, hgaps,
    hread ⟨4294967295, 1⟩ 'X' _ _ _ _ (by decide) (by decide) rfl hgaps⟩

example : parse " +060\u2003X 0040" = .ok ⟨60, 40⟩ := by cbv

end Geometry
end StampGrid
