import Mathlib.Data.List.TakeWhile
import StampGrid.Text.Blank
import StampGrid.Text.Numeral

/-!
# Words between blanks

The words of a text are not empty and hold no blank, and what is such a word by itself
is read back as one from a text in which a blank or the end stands behind it.
-/
namespace StampGrid.Text

/-- The text can stand between blanks: it is not empty, and nothing in it is blank. -/
def IsWord (cs : List Char) : Prop := cs ≠ [] ∧ ∀ c ∈ cs, isBlank c = false

instance (cs : List Char) : Decidable (IsWord cs) :=
  decidable_of_iff (cs ≠ [] ∧ cs.all (fun c => !isBlank c) = true) (by simp [IsWord])

namespace IsWord

variable {w : List Char} (h : IsWord w)
include h

/-- A word begins with a character that is not blank. -/
theorem exists_cons : ∃ c rest, w = c :: rest ∧ isBlank c = false := by
  obtain ⟨c, rest, rfl⟩ := List.exists_cons_of_ne_nil h.1
  exact ⟨c, rest, rfl, h.2 c List.mem_cons_self⟩

/-- A word does not end with a blank. -/
theorem getLast?_ne {c : Char} (hc : isBlank c = true) : w.getLast? ≠ some c := by
  intro hlast
  have hink := h.2 c (List.mem_of_getLast? hlast)
  simp [hc] at hink

end IsWord

/-- What is not blank lengthens the front word of a cut. -/
theorem foldr_before {w : List Char} (h : ∀ c ∈ w, isBlank c = false) (cut : Cut) :
    w.foldr Cut.before cut = ⟨w ++ cut.front, cut.done⟩ := by
  induction w with
  | nil => rfl
  | cons c w ih =>
    rw [List.foldr_cons, ih fun b hb => h b (List.mem_cons_of_mem c hb), Cut.before,
      if_neg (by simp [h c List.mem_cons_self])]
    rfl

theorem words_of_isWord {w : List Char} (h : IsWord w) : words w = [w] := by
  rw [words, foldr_before h.2, Cut.close, List.append_nil, if_neg h.1]

/-- A blank ends the word in front of it. -/
theorem words_append_blank {w : List Char} (h : IsWord w) {c : Char} (hc : isBlank c = true)
    (cs : List Char) : words (w ++ c :: cs) = w :: words cs := by
  rw [words, List.foldr_append, foldr_before h.2, List.foldr_cons, Cut.before, if_pos hc,
    Cut.close, List.append_nil, if_neg h.1]
  rfl

/-- What one more character in front leaves of the words: nothing blank, none empty. -/
theorem isWord_of_mem_words {cs w : List Char} (h : w ∈ words cs) : IsWord w := by
  suffices hcut : ∀ cut : Cut, cut = cs.foldr Cut.before ⟨[], []⟩ →
      (∀ c ∈ cut.front, isBlank c = false) ∧ ∀ w ∈ cut.close, IsWord w from
    (hcut _ rfl).2 w h
  clear h
  induction cs with
  | nil => rintro _ rfl; exact ⟨by simp, by simp [Cut.close]⟩
  | cons c cs ih =>
    rintro _ rfl
    obtain ⟨hfront, hclose⟩ := ih _ rfl
    rw [List.foldr_cons]
    generalize cs.foldr Cut.before ⟨[], []⟩ = cut at hfront hclose
    by_cases hc : isBlank c
    · rw [Cut.before, if_pos hc]
      exact ⟨by simp, hclose⟩
    · rw [Cut.before, if_neg hc]
      have hink : ∀ b ∈ c :: cut.front, isBlank b = false := by simpa [hc] using hfront
      refine ⟨hink, fun w hw => ?_⟩
      rw [Cut.close, if_neg (List.cons_ne_nil c cut.front)] at hw
      rcases List.mem_cons.mp hw with rfl | hw
      · exact ⟨List.cons_ne_nil c cut.front, hink⟩
      · refine hclose w ?_
        rw [Cut.close]
        split
        · exact hw
        · exact List.mem_cons_of_mem _ hw

/-- The words are the pieces between blanks, without the empty ones. -/
theorem words_eq_splitOnP (cs : List Char) :
    words cs = (cs.splitOnP isBlank).filter (· ≠ []) := by
  suffices hcut : ∃ rest, cs.splitOnP isBlank = (cs.foldr Cut.before ⟨[], []⟩).front :: rest ∧
      (cs.foldr Cut.before ⟨[], []⟩).done = rest.filter (· ≠ []) by
    obtain ⟨rest, hsplit, hdone⟩ := hcut
    rw [words, Cut.close, hsplit, hdone, List.filter_cons]
    by_cases hfront : (cs.foldr Cut.before ⟨[], []⟩).front = [] <;> simp [hfront]
  induction cs with
  | nil => exact ⟨[], rfl, rfl⟩
  | cons c cs ih =>
    obtain ⟨rest, hsplit, hdone⟩ := ih
    rw [List.foldr_cons, List.splitOnP_cons_eq_if_modifyHead, hsplit]
    generalize cs.foldr Cut.before ⟨[], []⟩ = cut at hdone
    by_cases hc : isBlank c
    · refine ⟨cut.front :: rest, by simp [Cut.before, hc], ?_⟩
      rw [Cut.before, if_pos hc, Cut.close, hdone, List.filter_cons]
      by_cases hfront : cut.front = [] <;> simp [hfront]
    · exact ⟨rest, by simp [Cut.before, hc], by simp [Cut.before, hc, hdone]⟩

/-- A blank parts the words in front of it from those behind it. -/
theorem words_append_cons_blank {c : Char} (hc : isBlank c = true) (cs cs' : List Char) :
    words (cs ++ c :: cs') = words cs ++ words cs' := by
  rw [words_eq_splitOnP, words_eq_splitOnP, words_eq_splitOnP,
    List.splitOnP_append_cons cs cs' hc, List.filter_append]

theorem words_blanks_append {blanks : List Char} (h : ∀ c ∈ blanks, isBlank c = true)
    (cs : List Char) : words (blanks ++ cs) = words cs := by
  induction blanks with
  | nil => simp
  | cons c blanks ih =>
    obtain ⟨hc, hblanks⟩ := List.forall_mem_cons.mp h
    rw [List.cons_append, words_cons_blank hc, ih hblanks]

/-- How many blanks stand between two words, and which, does not matter. -/
theorem words_append_gap {gap : List Char} (hne : gap ≠ []) (h : ∀ c ∈ gap, isBlank c = true)
    (cs cs' : List Char) : words (cs ++ gap ++ cs') = words cs ++ words cs' := by
  obtain ⟨c, blanks, hgap⟩ := List.exists_cons_of_ne_nil hne
  subst gap
  obtain ⟨hc, hblanks⟩ := List.forall_mem_cons.mp h
  rw [List.append_assoc, List.cons_append, words_append_cons_blank hc,
    words_blanks_append hblanks]

theorem words_eq_nil_iff {cs : List Char} : words cs = [] ↔ inked cs = [] := by
  rw [← flatten_words]
  cases h : words cs with
  | nil => simp
  | cons w ws =>
    have hw : IsWord w := isWord_of_mem_words (h ▸ List.mem_cons_self)
    simp [hw.1]

/-- A word behind blanks, with a blank or the end behind it, is the first of the text. -/
theorem words_blanks_word_append {blanks w behind : List Char}
    (hblanks : ∀ c ∈ blanks, isBlank c = true) (hw : IsWord w)
    (hbehind : ∀ c ∈ behind.head?, isBlank c = true) :
    words (blanks ++ w ++ behind) = w :: words behind := by
  rw [List.append_assoc, words_blanks_append hblanks]
  cases behind with
  | nil => rw [List.append_nil, words_of_isWord hw, words_nil]
  | cons c behind =>
    have hc : isBlank c = true := hbehind c rfl
    rw [words_append_blank hw hc, words_cons_blank hc]

/-- A text that is not blank is blanks, a word, and what stands behind the word. -/
theorem exists_first_word {cs : List Char} (h : words cs ≠ []) :
    ∃ blanks w behind, cs = blanks ++ w ++ behind ∧ (∀ c ∈ blanks, isBlank c = true) ∧
      IsWord w ∧ ∀ c ∈ behind.head?, isBlank c = true := by
  let rest := cs.dropWhile isBlank
  have hcs : cs = cs.takeWhile isBlank ++ rest := List.takeWhile_append_dropWhile.symm
  have hblanks : ∀ c ∈ cs.takeWhile isBlank, isBlank c = true := fun c hc =>
    List.mem_takeWhile_imp hc
  have hne : rest ≠ [] := by
    intro hnil
    rw [hcs, words_blanks_append hblanks, hnil, words_nil] at h
    exact h rfl
  obtain ⟨c, behind, hrest⟩ := List.exists_cons_of_ne_nil hne
  have hc : isBlank c = false := by
    have hhead := List.head?_dropWhile_not isBlank cs
    rw [show cs.dropWhile isBlank = c :: behind from hrest] at hhead
    exact hhead
  refine ⟨cs.takeWhile isBlank, rest.takeWhile fun c => !isBlank c,
    rest.dropWhile fun c => !isBlank c, ?_, hblanks, ⟨?_, fun b hb => ?_⟩, fun b hb => ?_⟩
  · rw [List.append_assoc, List.takeWhile_append_dropWhile]
    exact hcs
  · rw [hrest, List.takeWhile_cons_of_pos (by simp [hc])]
    exact List.cons_ne_nil _ _
  · simpa using List.mem_takeWhile_imp hb
  · have hhead := List.head?_dropWhile_not (fun c => !isBlank c) rest
    rw [hb] at hhead
    simpa using hhead

theorem words_eq_cons_iff {cs w : List Char} {ws : List (List Char)} :
    words cs = w :: ws ↔ ∃ blanks behind, cs = blanks ++ w ++ behind ∧
      (∀ c ∈ blanks, isBlank c = true) ∧ IsWord w ∧ (∀ c ∈ behind.head?, isBlank c = true) ∧
      words behind = ws := by
  constructor
  · intro h
    obtain ⟨blanks, w', behind, hcs, hblanks, hw', hbehind⟩ :=
      exists_first_word (h ▸ List.cons_ne_nil w ws)
    have hfirst := words_blanks_word_append hblanks hw' hbehind
    rw [← hcs, h] at hfirst
    obtain ⟨hword, hwords⟩ := List.cons.inj hfirst
    subst w'
    exact ⟨blanks, behind, hcs, hblanks, hw', hbehind, hwords.symm⟩
  · rintro ⟨blanks, behind, hcs, hblanks, hw, hbehind, hwords⟩
    rw [hcs, words_blanks_word_append hblanks hw hbehind, hwords]

/-- Letters and digits are not blank. -/
theorem isBlank_of_isAlphanum {c : Char} (h : c.isAlphanum = true) : isBlank c = false := by
  have hcode : 65 ≤ c.toNat ∧ c.toNat ≤ 90 ∨ 97 ≤ c.toNat ∧ c.toNat ≤ 122 ∨
      48 ≤ c.toNat ∧ c.toNat ≤ 57 := by
    change (decide (65 ≤ c.val ∧ c.val ≤ 90) || (decide (97 ≤ c.val) && decide (c.val ≤ 122)) ||
      (decide (48 ≤ c.val) && decide (c.val ≤ 57))) = true at h
    simpa [UInt32.le_iff_toNat_le, or_assoc] using h
  simp only [isBlank, blankRanges, List.any_cons, List.any_nil, Bool.or_false, Bool.or_eq_false_iff,
    Bool.and_eq_false_iff, decide_eq_false_iff_not]
  omega

/-- A written integer is a word. -/
theorem isWord_ofInt (v : Int) : IsWord (Numeral.ofInt v) := by
  have hdigits (n : Nat) : ∀ c ∈ Numeral.digits n, isBlank c = false := fun c hc =>
    isBlank_of_isAlphanum (by simp [Char.isAlphanum, Numeral.isDigit_of_mem_digits hc])
  cases v with
  | ofNat n => exact ⟨Numeral.digits_ne_nil n, hdigits n⟩
  | negSucc n =>
    refine ⟨List.cons_ne_nil _ _, fun c hc => ?_⟩
    rcases List.mem_cons.mp hc with rfl | hc
    · decide
    · exact hdigits _ c hc

theorem isBlank_of_mem_inked {cs : List Char} {c : Char} (h : c ∈ inked cs) :
    isBlank c = false := by
  simpa using (List.mem_filter.mp h).2

theorem inked_of_isWord {w : List Char} (h : IsWord w) : inked w = w :=
  List.filter_eq_self.mpr fun c hc => by simp [h.2 c hc]

end StampGrid.Text
