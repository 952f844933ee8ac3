import Mathlib.Data.List.Nodup
import StampGrid.Proofs.Draft.Meaning

/-!
# Drafts in use

A draft can be changed by statements, by commands outside a script, and by setting its
parts. Each action sets at most one part, so what is sound about a draft stays so, whatever
is done and whatever fails: no two axes have one name, and no step is zero.
-/
namespace StampGrid

namespace Draft

/-- What can be done to a draft. -/
inductive Action where
  | run (s : Statement)
  /-- A command with its arguments, outside a script. -/
  | apply (command : Keyword) (args : String)
  | setVariable (name value : String)
  | setImage (name locator : String)
  | setInitial (locator : String)
  | setAxis (axis : Axis)
  | note (problem : Problem)

/-- The draft behind an action, whatever comes of it. -/
def act (d : Draft) : Action → Draft
  | .run s => (d.run s).2
  | .apply command args =>
    match d.apply command args with
    | .ok d' => d'
    | .error _ => d
  | .setVariable name value => d.setVariable name value
  | .setImage name locator => d.setImage name locator
  | .setInitial locator => d.setInitial locator
  | .setAxis axis => d.setAxis axis
  | .note problem => d.note problem

/-- The draft behind a row of actions on an empty one. -/
def after (actions : List Action) : Draft := actions.foldl act {}

theorem nodup_placeAxis (a : Axis) {axes : List Axis} (h : (axes.map Axis.name).Nodup) :
    ((placeAxis a axes).map Axis.name).Nodup := by
  rw [names_placeAxis]
  split
  · exact h
  · next hnew =>
    rw [List.nodup_append]
    refine ⟨h, List.nodup_singleton _, fun name hname other hother => ?_⟩
    rw [List.mem_singleton.mp hother]
    rintro rfl
    exact hnew hname

/-- One part of the draft is set, or one problem noted. -/
inductive Sets (d : Draft) : Draft → Prop
  | «variable» (name value : String) : Sets d (d.setVariable name value)
  | image (name locator : String) : Sets d (d.setImage name locator)
  | initial (locator : String) : Sets d (d.setInitial locator)
  | axis (a : Axis) : Sets d (d.setAxis a)
  | problem (problem : Problem) : Sets d (d.note problem)

theorem sets_of_apply {d d' : Draft} {command : Keyword} {args : String}
    (h : d.apply command args = .ok d') : d.Sets d' := by
  cases command with
  | var =>
    simp only [apply] at h
    split at h
    · obtain rfl := Except.ok.inj h
      exact .variable _ _
    · obtain rfl := Except.ok.inj h
      exact .problem _
  | range =>
    cases ha : Arguments.axis args with
    | error => simp [apply, ha, Except.map] at h
    | ok a =>
      obtain rfl : d.setAxis a = d' := by simpa [apply, ha, Except.map] using h
      exact .axis a
  | img =>
    cases ha : Arguments.image args with
    | error => simp [apply, ha, Except.map] at h
    | ok p =>
      obtain rfl : d.setImage p.1 p.2 = d' := by simpa [apply, ha, Except.map] using h
      exact .image _ _
  | miff =>
    obtain rfl := Except.ok.inj h
    exact .initial _

/-- An action sets at most one part of the draft, apart from the line. -/
theorem sets_act (d : Draft) (action : Action) :
    ∃ line, d.act action = { d with line := line } ∨
      ({ d with line := line } : Draft).Sets (d.act action) := by
  cases action with
  | run s =>
    refine ⟨s.line, ?_⟩
    simp only [act, run]
    split
    · exact .inr (.problem _)
    · split
      · next h => exact .inr (sets_of_apply h)
      · exact .inl rfl
  | apply command args =>
    refine ⟨d.line, ?_⟩
    simp only [act]
    cases h : d.apply command args with
    | error => exact .inl rfl
    | ok d' => exact .inr (sets_of_apply h)
  | setVariable name value => exact ⟨d.line, .inr (.variable name value)⟩
  | setImage name locator => exact ⟨d.line, .inr (.image name locator)⟩
  | setInitial locator => exact ⟨d.line, .inr (.initial locator)⟩
  | setAxis a => exact ⟨d.line, .inr (.axis a)⟩
  | note problem => exact ⟨d.line, .inr (.problem problem)⟩

/-- The names of the axes are pairwise distinct, no step is zero, and a draft that starts
from an image has a locator for it. -/
structure IsSound (d : Draft) : Prop where
  axis_names_nodup : (d.axes.map Axis.name).Nodup
  step_ne_zero : ∀ a ∈ d.axes, a.stride.step ≠ 0
  initial_ne_empty : d.initial? ≠ some ""

theorem IsSound.sets {d d' : Draft} (hd : d.IsSound) (h : d.Sets d') : d'.IsSound := by
  cases h with
  | «variable» | image | problem =>
    exact ⟨hd.axis_names_nodup, hd.step_ne_zero, hd.initial_ne_empty⟩
  | initial locator =>
    refine ⟨hd.axis_names_nodup, hd.step_ne_zero, ?_⟩
    simp only [setInitial]
    split <;> simp_all
  | axis a =>
    exact ⟨nodup_placeAxis a hd.axis_names_nodup, fun b _ => b.stride.step_ne_zero,
      hd.initial_ne_empty⟩

theorem IsSound.act {d : Draft} (hd : d.IsSound) (action : Action) : (d.act action).IsSound := by
  have hline (line : ℕ) : ({ d with line := line } : Draft).IsSound :=
    ⟨hd.axis_names_nodup, hd.step_ne_zero, hd.initial_ne_empty⟩
  obtain ⟨line, heq | hsets⟩ := sets_act d action
  · exact heq ▸ hline line
  · exact (hline line).sets hsets

/-- A draft is sound, whatever has been done to it. -/
theorem isSound_after (actions : List Action) : (after actions).IsSound := by
  induction actions using List.reverseRecOn with
  | nil => exact ⟨List.nodup_nil, by simp [after], by simp [after]⟩
  | append_singleton actions action ih =>
    rw [after, List.foldl_append]
    exact ih.act action

end Draft

end StampGrid
