import StampGrid.Proofs.Draft.Reading
import StampGrid.Proofs.Script.Words

/-!
# Which drafts scripts describe

What a command accepts bounds what a draft can hold: names and values of variables have
their form, names and places of images are words, and so are the names of axes, of which
no two are equal. Problems are noted in the order of the lines.
-/
namespace StampGrid

open Text

namespace Arguments

/-- Both texts of an image are words: its name, and a path of one piece or more. -/
theorem Names.isWord {args name locator : String} (h : Names args name locator) :
    IsWord name.toList ∧ IsWord locator.toList := by
  obtain ⟨first, rest, hfields, hlocator⟩ := h
  rw [← words_eq_fields] at hfields
  have hpieces : ∀ w ∈ name.toList :: first :: rest, IsWord w := fun w hw =>
    isWord_of_mem_words (hfields ▸ hw)
  refine ⟨hpieces _ List.mem_cons_self, ?_, fun c hc => ?_⟩
  · rw [hlocator]
    simp [(hpieces first (by simp)).1]
  · rw [hlocator] at hc
    obtain ⟨w, hw, hc⟩ := List.mem_flatten.mp hc
    exact (hpieces w (List.mem_cons_of_mem _ hw)).2 c hc

theorem IsDeclaration.isWord {args name : String} {start stop step : ℤ}
    (h : IsDeclaration args name start stop step) : IsWord name.toList := by
  obtain ⟨first, second, third, more, hfields, -⟩ := h
  rw [← words_eq_fields] at hfields
  exact isWord_of_mem_words (hfields ▸ List.mem_cons_self)

end Arguments

namespace Statement

variable {s : Statement}

/-- What is noted of a statement is noted on its line. -/
theorem line_of_diagnostic? {g : Diagnostic} (h : s.diagnostic? = some g) : g.line = s.line := by
  simp only [diagnostic?] at h
  split at h
  · rw [← Option.some.inj h]
  · split at h
    · rw [← Option.some.inj h]
    · contradiction

end Statement

namespace Draft

/-- What the draft holds has the form that scripts can give it. -/
structure IsConfiguration (d : Draft) : Prop where
  /-- A letter is followed by letters, digits and underscores, all of them ASCII. -/
  variable_names : ∀ name value, d.variables.get? name = some value →
    ∃ c rest, name.toList = c :: rest ∧ c.isAlpha = true ∧
      ∀ b ∈ rest, b.isAlphanum = true ∨ b = '_'
  variable_values : ∀ name value, d.variables.get? name = some value →
    value ≠ "" ∧ '\n' ∉ value.toList
  images : ∀ name locator, d.images.get? name = some locator →
    IsWord name.toList ∧ IsWord locator.toList
  initial? : ∀ locator, d.initial? = some locator → IsWord locator.toList
  axes : ∀ a ∈ d.axes, IsWord a.name.toList ∧ a.stride.step ≠ 0
  axis_names_nodup : (d.axes.map Axis.name).Nodup

variable {d : Draft} {ss : List Statement}

theorem Describes.form_of_variable (h : d.Describes ss) {name value : String}
    (hget : d.variables.get? name = some value) :
    Arguments.isName name.toList = true ∧ Arguments.isValue value.toList = true := by
  obtain ⟨_, s, _, -, hsaid, -⟩ := (h.variable_iff name value).mp hget
  obtain ⟨_, -, -, hname, hvalue⟩ := hsaid.2
  exact ⟨hname, hvalue⟩

theorem Describes.isConfiguration (h : d.Describes ss) : d.IsConfiguration where
  variable_names := fun _ _ hget => Arguments.isName_iff.mp (h.form_of_variable hget).1
  variable_values := fun name value hget => by
    have hvalue := Arguments.isValue_iff.mp (h.form_of_variable hget).2
    exact ⟨fun hempty => hvalue.1 (by simp [hempty]), hvalue.2⟩
  images := fun name locator hget => by
    obtain ⟨_, s, _, -, hsaid, -⟩ := (h.image_iff name locator).mp hget
    exact hsaid.2.isWord
  initial? := fun locator hinitial => by
    obtain ⟨⟨_, s, _, -, hsaid, -⟩, hne⟩ := (h.initial_iff locator).mp hinitial
    refine ⟨fun hnil => hne (String.toList_eq_nil_iff.mp hnil), fun c hc => ?_⟩
    exact isBlank_of_mem_inked (hsaid.2 ▸ hc)
  axes := fun a ha => by
    obtain ⟨_, s, _, -, hsaid, -⟩ := h.axis_strides a ha
    exact ⟨hsaid.2.isWord, a.stride.step_ne_zero⟩
  axis_names_nodup := h.axis_names ▸ nodup_eraseDups _

/-- Problems are noted in the order of their statements, one for a line at most. -/
theorem Describes.pairwise_diagnostics (h : d.Describes ss)
    (hlines : ss.Pairwise fun s t => s.line < t.line) :
    d.diagnostics.toList.Pairwise fun f g => f.line < g.line := by
  rw [h.diagnostics]
  refine List.pairwise_filterMap.mpr (hlines.imp fun hlt f hf g hg => ?_)
  rwa [Statement.line_of_diagnostic? hf, Statement.line_of_diagnostic? hg]

theorem Describes.line_of_mem_diagnostics {ls : List (List Char)}
    (h : d.Describes (Statement.ofLines 1 ls)) {g : Diagnostic} (hg : g ∈ d.diagnostics.toList) :
    1 ≤ g.line ∧ g.line ≤ ls.length := by
  rw [h.diagnostics] at hg
  obtain ⟨s, hs, hnoted⟩ := List.mem_filterMap.mp hg
  obtain ⟨hfirst, hlast⟩ := Statement.line_of_mem_ofLines hs
  rw [Statement.line_of_diagnostic? hnoted]
  exact ⟨hfirst, by omega⟩

/-- A script in memory is read as its statements. -/
theorem ofString_eq (script : String) : ofString script = ofStatements (Statement.all script) := by
  rw [ofString, ofSource_of_brings (Source.brings_ofOctets _), Utf8.encode, Utf8.decode_encode,
    String.ofList_toList]

end Draft
end StampGrid
