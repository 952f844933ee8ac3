import StampGrid.Proofs.Draft.Reading

/-!
# Scripts that differ in one variable

Two scripts that are the same but for assignments to one variable fail in the same
way, or describe drafts that are the same but for the value of that variable. A
script may lack the lines of its assignments, so lines need not have the same numbers.
-/
namespace StampGrid

/-- Two rows of statements are the same but for assignments to one variable and the
lines on which they stand. -/
inductive SameButAssignments (name : String) : List Statement → List Statement → Prop where
  | nil : SameButAssignments name [] []
  | same {s t : Statement} (hcommand : s.command = t.command) (hargs : s.args = t.args)
      {ss ts : List Statement} (h : SameButAssignments name ss ts) :
      SameButAssignments name (s :: ss) (t :: ts)
  | left {s : Statement} {value : String} (hs : s.Assigns name value) {ss ts : List Statement}
      (h : SameButAssignments name ss ts) : SameButAssignments name (s :: ss) ts
  | right {t : Statement} {value : String} (ht : t.Assigns name value) {ss ts : List Statement}
      (h : SameButAssignments name ss ts) : SameButAssignments name ss (t :: ts)

namespace Draft

/-- Two drafts are the same but for the value of one variable, which either may lack.
The lines on which problems were met do not count. -/
structure SameBut (name : String) (d e : Draft) : Prop where
  values : ∀ other, other ≠ name → d.variables.get? other = e.variables.get? other
  images : d.images = e.images
  initial? : d.initial? = e.initial?
  axes : d.axes = e.axes
  problems : d.diagnostics.map (·.problem) = e.diagnostics.map (·.problem)

variable {name : String} {d e : Draft}

theorem SameBut.refl (name : String) (d : Draft) : SameBut name d d :=
  ⟨fun _ _ => rfl, rfl, rfl, rfl, rfl⟩

theorem SameBut.symm (h : SameBut name d e) : SameBut name e d :=
  ⟨fun other hother => (h.values other hother).symm, h.images.symm, h.initial?.symm,
    h.axes.symm, h.problems.symm⟩

/-- Any value may be given to the variable itself. -/
theorem SameBut.setVariable_left (h : SameBut name d e) (value : String) :
    SameBut name (d.setVariable name value) e where
  values other hother := by
    rw [setVariable, Table.get?_insert, if_neg (Ne.symm hother)]
    exact h.values other hother
  images := h.images
  initial? := h.initial?
  axes := h.axes
  problems := h.problems

theorem SameBut.setVariable (h : SameBut name d e) (other value : String) :
    SameBut name (d.setVariable other value) (e.setVariable other value) where
  values another hanother := by
    simp only [Draft.setVariable, Table.get?_insert, h.values another hanother]
  images := h.images
  initial? := h.initial?
  axes := h.axes
  problems := h.problems

theorem SameBut.note (h : SameBut name d e) (problem : Problem) :
    SameBut name (d.note problem) (e.note problem) where
  values := h.values
  images := h.images
  initial? := h.initial?
  axes := h.axes
  problems := by simp only [Draft.note, Array.map_push, h.problems]

theorem SameBut.at_line (h : SameBut name d e) (line line' : ℕ) :
    SameBut name { d with line := line } { e with line := line' } :=
  ⟨h.values, h.images, h.initial?, h.axes, h.problems⟩

/-- Two runs succeed or fail alike, lines apart, and leave drafts that are the same but
for the variable. -/
def SameOutcome (name : String) (p q : Except Fault Unit × Draft) : Prop :=
  p.1.mapError Fault.root = q.1.mapError Fault.root ∧ SameBut name p.2 q.2

/-- One command with the same arguments does the same to both drafts. -/
theorem SameBut.run (h : SameBut name d e) {s t : Statement} (hcommand : s.command = t.command)
    (hargs : s.args = t.args) : SameOutcome name (d.run s) (e.run t) := by
  have hhere := h.at_line s.line t.line
  simp only [Draft.run, ← hcommand, ← hargs]
  cases hk : Keyword.ofName? s.command with
  | none => exact ⟨rfl, hhere.note _⟩
  | some command =>
    cases command with
    | var =>
      simp only [apply]
      cases Arguments.assignment? s.args with
      | none => exact ⟨rfl, hhere.note _⟩
      | some assignment => exact ⟨rfl, hhere.setVariable _ _⟩
    | range =>
      simp only [apply]
      cases Arguments.axis s.args with
      | error fault => exact ⟨rfl, hhere⟩
      | ok axis =>
        exact ⟨rfl, hhere.values, hhere.images, hhere.initial?,
          congrArg (placeAxis axis) hhere.axes, hhere.problems⟩
    | img =>
      simp only [apply]
      cases Arguments.image s.args with
      | error fault => exact ⟨rfl, hhere⟩
      | ok image =>
        exact ⟨rfl, hhere.values, congrArg (Table.insert · image.1 image.2) hhere.images,
          hhere.initial?, hhere.axes, hhere.problems⟩
    | miff => exact ⟨rfl, hhere.values, hhere.images, rfl, hhere.axes, hhere.problems⟩

theorem run_of_assigns (d : Draft) {s : Statement} {value : String} (h : s.Assigns name value) :
    d.run s = (.ok (), { d with line := s.line }.setVariable name value) := by
  have hk : Keyword.ofName? s.command = some .var := by rw [h.1]; rfl
  simp only [Draft.run, hk, apply, Arguments.assignment?_eq_some_iff.mpr h.2]

/-- Assignments to one variable do not change how a row of statements ends. -/
theorem SameBut.runAll {ss ts : List Statement} (h : SameBut name d e)
    (hstatements : SameButAssignments name ss ts) :
    SameOutcome name (d.runAll ss) (e.runAll ts) := by
  induction hstatements generalizing d e with
  | nil => exact ⟨rfl, h⟩
  | @same s t hcommand hargs _ _ _ ih =>
    obtain ⟨houtcome, hsame⟩ := h.run hcommand hargs
    simp only [Draft.runAll]
    generalize d.run s = p at houtcome hsame
    generalize e.run t = q at houtcome hsame
    obtain ⟨⟨fault⟩ | _, d'⟩ := p <;> obtain ⟨⟨fault'⟩ | _, e'⟩ := q
    · exact ⟨houtcome, hsame⟩
    · contradiction
    · contradiction
    · exact ih hsame
  | left hs _ ih =>
    simp only [Draft.runAll, run_of_assigns d hs]
    exact ih ((h.at_line _ _).setVariable_left _)
  | right ht _ ih =>
    simp only [Draft.runAll, run_of_assigns e ht]
    exact ih ((h.symm.at_line _ _).setVariable_left _).symm

/-- Of two such scripts one describes a draft if the other does. -/
theorem exists_ofStatements_sameBut {ss ts : List Statement} (h : SameButAssignments name ss ts)
    (hd : ofStatements ss = .ok d) : ∃ e, ofStatements ts = .ok e ∧ SameBut name d e := by
  obtain ⟨houtcome, hsame⟩ := (SameBut.refl name {}).runAll h
  simp only [ofStatements] at hd ⊢
  generalize Draft.runAll {} ss = p at houtcome hsame hd
  generalize Draft.runAll {} ts = q at houtcome hsame
  obtain ⟨_ | _, d'⟩ := p
  · contradiction
  · obtain rfl : d' = d := by simpa using hd
    obtain ⟨_ | _, e⟩ := q
    · contradiction
    · exact ⟨e, rfl, hsame⟩

end Draft
end StampGrid
