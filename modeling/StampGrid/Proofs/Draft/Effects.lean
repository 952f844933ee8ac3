import StampGrid.Proofs.Draft.Actions
import StampGrid.Proofs.Draft.Declaration
import StampGrid.Proofs.Table

/-!
# The effect of one statement

A statement ends in one of three ways. It is refused and leaves the draft as it was, it is
noted and adds nothing but the note, or it is carried out and sets the one entry that it
is about. No statement does a part of what it says.
-/
namespace StampGrid

variable {α : Type}

/-- The new table binds the name to the value, and all other names as the old one does. -/
def Table.Rebound (old : Table α) (name : String) (value : α) (new : Table α) : Prop :=
  new.get? name = some value ∧ ∀ other, other ≠ name → new.get? other = old.get? other

theorem Table.rebound_insert (t : Table α) (name : String) (value : α) :
    t.Rebound name value (t.insert name value) :=
  ⟨by simp, fun other hother => by simp [Ne.symm hother]⟩

namespace Draft

/-- The statement has set the entry that it is about, and nothing else. -/
inductive SetsEntry (d : Draft) (s : Statement) (d' : Draft) : Prop
  | «variable» {name value : String} (h : s.Assigns name value)
      (hentry : d.variables.Rebound name value d'.variables)
      (hrest : d' = { d with «variables» := d'.variables, line := s.line })
  | image {name locator : String} (h : s.Names name locator)
      (hentry : d.images.Rebound name locator d'.images)
      (hrest : d' = { d with images := d'.images, line := s.line })
  | initial {locator : String} (h : s.Starts locator)
      (hentry : d'.initial? = if locator = "" then none else some locator)
      (hrest : d' = { d with initial? := d'.initial?, line := s.line })
  | axis {a : Axis} (h : s.Declares a.name a.stride) (hentry : Placed a d.axes d'.axes)
      (hrest : d' = { d with axes := d'.axes, line := s.line })

/-- The ways in which a statement can end. -/
inductive Ending where
  | refused
  | noted
  | carriedOut
  deriving DecidableEq

/-- What a statement gives and makes of a draft when it ends so. -/
def Ends (d : Draft) (s : Statement) (result : Except Fault Unit × Draft) : Ending → Prop
  | .refused => ∃ cause : Fault, cause.line? = none ∧
      result = (.error (.atLine s.line cause), { d with line := s.line })
  | .noted => ∃ problem, result = (.ok (),
      { d with diagnostics := d.diagnostics.push ⟨s.line, problem⟩, line := s.line })
  | .carriedOut => result.1 = .ok () ∧ d.SetsEntry s result.2

variable {d d' : Draft} {s : Statement}

theorem SetsEntry.diagnostics_eq (h : d.SetsEntry s d') : d'.diagnostics = d.diagnostics := by
  cases h <;> next hrest => rw [hrest]

theorem Step.ends (h : Step d s d') : d.Ends s (.ok (), d') .noted ∨
    d.Ends s (.ok (), d') .carriedOut := by
  cases h with
  | unknown => exact .inl ⟨_, rfl⟩
  | mismatch => exact .inl ⟨_, rfl⟩
  | assigned h => exact .inr ⟨rfl, .variable h (Table.rebound_insert _ _ _) rfl⟩
  | placed h => exact .inr ⟨rfl, .axis h (placed_placeAxis _ _) rfl⟩
  | named h => exact .inr ⟨rfl, .image h (Table.rebound_insert _ _ _) rfl⟩
  | started h => exact .inr ⟨rfl, .initial h rfl rfl⟩

theorem exists_ends (d : Draft) (s : Statement) : ∃ e, d.Ends s (d.run s) e := by
  by_cases h : s.Fatal
  · obtain ⟨cause, hfails⟩ := h.exists_fails
    exact ⟨.refused, cause, hfails.line?_eq_none, run_of_fails d hfails⟩
  · obtain ⟨d', hrun, hstep⟩ := run_of_not_fatal d h
    rw [hrun]
    exact hstep.ends.elim (⟨.noted, ·⟩) (⟨.carriedOut, ·⟩)

theorem Ends.ok_iff {result : Except Fault Unit × Draft} {e : Ending}
    (h : d.Ends s result e) : result.1 = .ok () ↔ e ≠ .refused := by
  cases e with
  | refused =>
    obtain ⟨cause, -, rfl⟩ := h
    simp
  | noted =>
    obtain ⟨problem, rfl⟩ := h
    simp
  | carriedOut => simpa using h.1

/-- Only a note makes the problems more. -/
theorem Ends.size_diagnostics {result : Except Fault Unit × Draft} {e : Ending}
    (h : d.Ends s result e) :
    result.2.diagnostics.size = d.diagnostics.size + if e = .noted then 1 else 0 := by
  cases e with
  | refused =>
    obtain ⟨cause, -, rfl⟩ := h
    rfl
  | noted =>
    obtain ⟨problem, rfl⟩ := h
    simp
  | carriedOut => rw [h.2.diagnostics_eq]; rfl

/-- The result tells how the statement ended. -/
theorem Ends.unique {result : Except Fault Unit × Draft} {e e' : Ending}
    (h : d.Ends s result e) (h' : d.Ends s result e') : e' = e := by
  have hrefused := h.ok_iff.symm.trans h'.ok_iff
  have hnoted := h.size_diagnostics.symm.trans h'.size_diagnostics
  cases e <;> cases e' <;> simp_all

/-- Each statement, at any draft, ends in exactly one way: it is refused with its line around
a reason that has none and leaves all of the draft but its line as it was, or it is noted on
its line and nothing else changes, or it sets the one entry that it is about and nothing
else. A sound draft stays sound, whatever is done to it, and the empty draft is sound. -/
theorem run_all_or_nothing (d : Draft) :
    (∀ s, ∃! e, d.Ends s (d.run s) e) ∧
      (d.IsSound → ∀ action, (d.act action).IsSound) ∧ ∀ actions, (after actions).IsSound := by
  refine ⟨fun s => ?_, IsSound.act, isSound_after⟩
  obtain ⟨e, he⟩ := exists_ends d s
  exact ⟨e, he, fun e' he' => he.unique he'⟩

/-- An axis of a sound draft declared again. -/
theorem run_all_or_nothing_redeclared :
    let x : Axis := ⟨"x", ⟨0, 3, 1, by decide⟩⟩
    let y : Axis := ⟨"y", ⟨0, 2, 1, by decide⟩⟩
    let d : Draft := { axes := [x, y], initial? := some "sky.png" }
    d.IsSound ∧ (d.act (.run ⟨7, "range", "x 9 0 -3"⟩)).IsSound := by
  intro x y d
  have hsound : d.IsSound := ⟨by decide, by decide, by decide⟩
  exact ⟨hsound, (run_all_or_nothing d).2.1 hsound _⟩

end Draft
end StampGrid
