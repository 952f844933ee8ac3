import StampGrid.Proofs.Draft.Meaning

/-!
# Declarations of axes

A text that declares an axis has a name and three integers of 64 bits between its blanks,
and the last of them is not zero; what stands behind them does not count. Every other text
is refused, for the first reason that reading from the left meets. An axis that is declared
again keeps its place among the axes, a new one becomes the innermost.
-/
namespace StampGrid

namespace Draft

open Arguments

theorem apply_range_eq_ok_iff {d d' : Draft} {args : String} :
    d.apply .range args = .ok d' ↔ ∃ a, Arguments.axis args = .ok a ∧ d' = d.setAxis a := by
  cases h : Arguments.axis args <;> simp [apply, h, Except.map, eq_comm]

theorem apply_range_eq_error_iff {d : Draft} {args : String} {cause : Fault} :
    d.apply .range args = .error cause ↔ Arguments.axis args = .error cause := by
  cases h : Arguments.axis args <;> simp [apply, h, Except.map]

theorem eq_setAxis_iff {d d' : Draft} {a : Axis} :
    d' = d.setAxis a ↔ Placed a d.axes d'.axes ∧ d' = { d with axes := d'.axes } := by
  rw [placed_iff]
  constructor
  · rintro rfl
    exact ⟨rfl, rfl⟩
  · rintro ⟨haxes, heq⟩
    rw [heq, haxes, setAxis]

/-- A range command in a script fails as its arguments do, with its line around the reason. -/
theorem run_range_eq_error_iff {d : Draft} {line : ℕ} {args : String} {fault : Fault} :
    (d.run ⟨line, "range", args⟩).1 = .error fault ↔
      ∃ cause, d.apply .range args = .error cause ∧ fault = .atLine line cause :=
  @run_name_eq_error_iff d line .range args fault

/-- What `range` makes of its arguments, whatever they are. It succeeds exactly for a name and
three integers of 64 bits, the last of which is not zero, and then gives the axis with that
name and those numbers its place and changes nothing else. Otherwise it is refused for the
first reason: too few fields, the leftmost of the three numbers that is none, or a step of
zero; in a script it then leaves all of the draft but its line as it was. -/
theorem apply_range (d : Draft) (args : String) :
    ((∃ d', d.apply .range args = .ok d') ↔
      ∃ name start stop step, IsDeclaration args name start stop step) ∧
    (∀ d', d.apply .range args = .ok d' ↔ ∃ a : Axis,
      IsDeclaration args a.name a.stride.start.toInt a.stride.stop.toInt a.stride.step.toInt ∧
        Placed a d.axes d'.axes ∧ d' = { d with axes := d'.axes }) ∧
    (∀ cause, d.apply .range args = .error cause ↔ Refusal args cause) ∧
    ∀ line cause, d.run ⟨line, "range", args⟩ =
      (.error (.atLine line cause), { d with line := line }) ↔ Refusal args cause := by
  have hok (d' : Draft) : d.apply .range args = .ok d' ↔ ∃ a : Axis,
      IsDeclaration args a.name a.stride.start.toInt a.stride.stop.toInt a.stride.step.toInt ∧
        Placed a d.axes d'.axes ∧ d' = { d with axes := d'.axes } := by
    simp only [apply_range_eq_ok_iff, axis_eq_ok_iff, eq_setAxis_iff]
  have herror (cause : Fault) : d.apply .range args = .error cause ↔ Refusal args cause := by
    rw [apply_range_eq_error_iff, axis_eq_error_iff]
  refine ⟨⟨?_, ?_⟩, hok, herror, fun line cause => ?_⟩
  · rintro ⟨d', h⟩
    obtain ⟨a, hform, -⟩ := (hok d').mp h
    exact ⟨a.name, _, _, _, hform⟩
  · rintro ⟨name, start, stop, step, hform⟩
    obtain ⟨stride, rfl, rfl, rfl⟩ := hform.exists_stride
    exact ⟨_, apply_range_eq_ok_iff.mpr ⟨⟨name, stride⟩, axis_of_isDeclaration hform, rfl⟩⟩
  · constructor
    · intro h
      obtain ⟨cause', hcause', heq⟩ := run_range_eq_error_iff.mp (congrArg Prod.fst h)
      obtain rfl := (Fault.atLine.inj heq).2
      exact (herror cause).mp hcause'
    · intro h
      exact run_of_fails d (s := ⟨line, "range", args⟩) (.axis rfl h)

end Draft
end StampGrid
