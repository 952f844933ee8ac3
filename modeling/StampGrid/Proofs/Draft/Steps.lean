import StampGrid.Draft
import StampGrid.Proofs.Script.Arguments

/-!
# What one statement does to a draft

A statement says at most one thing: it assigns a variable, names an image, starts
from an image, declares an axis, is noted as a problem, or fails. Carrying it out
changes the draft by what it says and leaves everything else as it was.
-/
namespace StampGrid

open Text Text.Numeral

namespace Statement

open Arguments (fields)

/-- The statement assigns the value to the variable. -/
def Assigns (s : Statement) (name value : String) : Prop :=
  s.command = "var" ∧ Arguments.Assigns s.args name value

/-- The statement names the image at the locator. -/
def Names (s : Statement) (name locator : String) : Prop :=
  s.command = "img" ∧ Arguments.Names s.args name locator

/-- The statement says to start from the locator, which may be empty. -/
def Starts (s : Statement) (locator : String) : Prop :=
  s.command = "miff" ∧ locator.toList = inked s.args.toList

/-- The statement declares the axis with this stride. -/
def Declares (s : Statement) (name : String) (stride : Stride) : Prop :=
  s.command = "range" ∧ Arguments.IsDeclaration s.args name
    stride.start.toInt stride.stop.toInt stride.step.toInt

/-- The axis that a statement is about. -/
def axisName? (s : Statement) : Option String :=
  if s.command = "range" then (fields s.args).head?.map String.ofList else none

/-- What is noted of a statement: a command that is unknown, or an assignment that is none. -/
def diagnostic? (s : Statement) : Option Diagnostic :=
  if s.command ∉ ["var", "range", "img", "miff"] then
    some ⟨s.line, .unknownCommand s.command⟩
  else if s.command = "var" ∧ ¬ ∃ name value, Arguments.Assigns s.args name value then
    some ⟨s.line, .mismatch .var s.args⟩
  else none

/-- The statement cannot be carried out, for this reason. -/
inductive Fails (s : Statement) : Fault → Prop
  | axis {cause : Fault} (hcommand : s.command = "range") (h : Arguments.Refusal s.args cause) :
      Fails s cause
  | image (hcommand : s.command = "img") (h : (fields s.args).length < 2) :
      Fails s (.tooFewArguments "img" 2 (fields s.args).length)

/-- The statement cannot be carried out: it is a range with too few fields, or with a second
to fourth field that is no integer of 64 bits, or with a step of zero, or it is an image with
too few fields. -/
def Fatal (s : Statement) : Prop :=
  s.command = "range" ∧ ((fields s.args).length < 4 ∨
      (∃ w ∈ ((fields s.args).drop 1).take 3, ¬ ∃ v, Denotes64 w v) ∨
      ∃ w ∈ (fields s.args)[3]?, Denotes64 w 0) ∨
    s.command = "img" ∧ (fields s.args).length < 2

instance (s : Statement) : Decidable s.Fatal := inferInstanceAs (Decidable (_ ∧ _ ∨ _ ∧ _))

variable {s : Statement}

theorem Fatal.exists_fails (h : s.Fatal) : ∃ cause, s.Fails cause := by
  rcases h with ⟨hcommand, h⟩ | ⟨hcommand, h⟩
  · rcases Arguments.isDeclaration_or_refusal s.args with ⟨a, hform⟩ | ⟨cause, hrefusal⟩
    · obtain ⟨first, second, third, more, hfields, hfirst, hsecond, hthird, hne⟩ := hform
      rw [hfields] at h
      rcases h with h | ⟨w, hw, hbad⟩ | ⟨w, hw, hzero⟩
      · simp only [List.length_cons] at h
        omega
      · have hplace : w = first ∨ w = second ∨ w = third := by simpa using hw
        rcases hplace with rfl | rfl | rfl
        exacts [absurd ⟨_, hfirst⟩ hbad, absurd ⟨_, hsecond⟩ hbad, absurd ⟨_, hthird⟩ hbad]
      · obtain rfl : third = w := by simpa using hw
        exact absurd (hthird.unique hzero) hne
    · exact ⟨cause, .axis hcommand hrefusal⟩
  · exact ⟨_, .image hcommand h⟩

theorem Fails.fatal {cause : Fault} (h : s.Fails cause) : s.Fatal := by
  cases h with
  | image hcommand h => exact .inr ⟨hcommand, h⟩
  | axis hcommand h =>
    refine .inl ⟨hcommand, ?_⟩
    cases h with
    | tooFew h => exact .inl h
    | @notAnInteger name word before after h hmany hplace hbefore hword =>
      refine .inr (.inl ⟨word, ?_, hword⟩)
      rw [h, List.drop_succ_cons, List.drop_zero, List.mem_take_iff_getElem]
      exact ⟨before.length, by simp; omega, by simp⟩
    | @zeroStep name first second third more h _ _ hthird =>
      exact .inr (.inr ⟨third, by rw [h]; rfl, hthird⟩)

theorem Assigns.unique {name value name' value' : String} (h : s.Assigns name value)
    (h' : s.Assigns name' value') : name' = name ∧ value' = value := by
  have heq := Arguments.assignment?_eq_some_iff.mpr h.2
  rw [Arguments.assignment?_eq_some_iff.mpr h'.2] at heq
  simpa using heq

theorem Names.unique {name locator name' locator' : String} (h : s.Names name locator)
    (h' : s.Names name' locator') : name' = name ∧ locator' = locator := by
  have heq := Arguments.image_eq_ok_iff.mpr h.2
  rw [Arguments.image_eq_ok_iff.mpr h'.2] at heq
  simpa using heq

theorem Declares.unique {name name' : String} {stride stride' : Stride}
    (h : s.Declares name stride) (h' : s.Declares name' stride') :
    name' = name ∧ stride' = stride := by
  have heq := Arguments.axis_of_isDeclaration (a := ⟨name, stride⟩) h.2
  rw [Arguments.axis_of_isDeclaration (a := ⟨name', stride'⟩) h'.2] at heq
  simpa using heq

theorem Starts.unique {locator locator' : String} (h : s.Starts locator)
    (h' : s.Starts locator') : locator' = locator :=
  String.toList_inj.mp (h'.2.trans h.2.symm)

/-- The reason of a failure carries no line itself. -/
theorem Fails.line?_eq_none {cause : Fault} (h : s.Fails cause) : cause.line? = none := by
  cases h with
  | axis _ h => cases h <;> rfl
  | image => rfl

theorem Declares.axisName?_eq {name : String} {stride : Stride} (h : s.Declares name stride) :
    s.axisName? = some name := by
  obtain ⟨hcommand, first, second, third, more, hfields, -⟩ := h
  simp [axisName?, hcommand, hfields]

end Statement

namespace Draft

/-- What carrying out a statement without a fault can do. -/
inductive Step (d : Draft) (s : Statement) : Draft → Prop
  | unknown (h : s.command ∉ ["var", "range", "img", "miff"]) :
      Step d s ({ d with line := s.line }.note (.unknownCommand s.command))
  | mismatch (hcommand : s.command = "var")
      (h : ¬ ∃ name value, Arguments.Assigns s.args name value) :
      Step d s ({ d with line := s.line }.note (.mismatch .var s.args))
  | assigned {name value : String} (h : s.Assigns name value) :
      Step d s ({ d with line := s.line }.setVariable name value)
  | placed {a : Axis} (h : s.Declares a.name a.stride) :
      Step d s ({ d with line := s.line }.setAxis a)
  | named {name locator : String} (h : s.Names name locator) :
      Step d s ({ d with line := s.line }.setImage name locator)
  | started {locator : String} (h : s.Starts locator) :
      Step d s ({ d with line := s.line }.setInitial locator)

theorem command_of_ofName?_eq_none {command : String} (h : Keyword.ofName? command = none) :
    command ∉ ["var", "range", "img", "miff"] := by
  intro hmem
  have hname : ∃ k : Keyword, command = k.name := by
    simp only [List.mem_cons, List.not_mem_nil, or_false] at hmem
    rcases hmem with rfl | rfl | rfl | rfl
    exacts [⟨.var, rfl⟩, ⟨.range, rfl⟩, ⟨.img, rfl⟩, ⟨.miff, rfl⟩]
  obtain ⟨k, rfl⟩ := hname
  simp at h

/-- A statement that fails leaves all of the draft but the line as it was. -/
theorem run_of_fails (d : Draft) {s : Statement} {cause : Fault} (h : s.Fails cause) :
    d.run s = (.error (.atLine s.line cause), { d with line := s.line }) := by
  cases h with
  | axis hcommand h =>
    have hk : Keyword.ofName? s.command = some .range := by rw [hcommand]; rfl
    simp [run, hk, apply, Arguments.axis_of_refusal h, Except.map]
  | image hcommand h =>
    have hk : Keyword.ofName? s.command = some .img := by rw [hcommand]; rfl
    simp [run, hk, apply, Arguments.image_eq_error_iff.mpr ⟨h, rfl⟩, Except.map]

/-- In a script a command fails as it does alone, with its line around the reason. -/
theorem run_name_eq_error_iff {d : Draft} {line : ℕ} {command : Keyword} {args : String}
    {fault : Fault} : (d.run ⟨line, command.name, args⟩).1 = .error fault ↔
      ∃ cause, d.apply command args = .error cause ∧ fault = .atLine line cause := by
  simp only [run, Keyword.ofName?_name]
  cases command with
  | var => cases h : Arguments.assignment? args <;> simp [apply, h]
  | range => cases h : Arguments.axis args <;> simp [apply, h, Except.map, eq_comm]
  | img => cases h : Arguments.image args <;> simp [apply, h, Except.map, eq_comm]
  | miff => simp [apply]

/-- A statement that does not fail is carried out as one of the steps. -/
theorem run_of_not_fatal (d : Draft) {s : Statement} (h : ¬ s.Fatal) :
    ∃ d', d.run s = (.ok (), d') ∧ Step d s d' := by
  cases hk : Keyword.ofName? s.command with
  | none => exact ⟨_, by simp [run, hk], .unknown (command_of_ofName?_eq_none hk)⟩
  | some k =>
    have hcommand := (Keyword.name_of_ofName? hk).symm
    cases k with
    | var =>
      cases ha : Arguments.assignment? s.args with
      | none =>
        refine ⟨_, by simp [run, hk, apply, ha], .mismatch hcommand ?_⟩
        rintro ⟨name, value, hassigns⟩
        rw [← Arguments.assignment?_eq_some_iff, ha] at hassigns
        contradiction
      | some a =>
        exact ⟨_, by simp [run, hk, apply, ha],
          .assigned ⟨hcommand, Arguments.assignment?_eq_some_iff.mp ha⟩⟩
    | range =>
      cases ha : Arguments.axis s.args with
      | error cause =>
        exact absurd (Statement.Fails.axis hcommand (Arguments.axis_eq_error_iff.mp ha)).fatal h
      | ok a =>
        exact ⟨_, by simp [run, hk, apply, ha, Except.map],
          .placed ⟨hcommand, Arguments.axis_eq_ok_iff.mp ha⟩⟩
    | img =>
      cases ha : Arguments.image s.args with
      | error cause =>
        have hfew := (Arguments.image_eq_error_iff.mp ha).1
        exact absurd (Statement.Fails.image hcommand hfew).fatal h
      | ok a =>
        exact ⟨_, by simp [run, hk, apply, ha, Except.map],
          .named ⟨hcommand, Arguments.image_eq_ok_iff.mp ha⟩⟩
    | miff =>
      exact ⟨_, by simp [run, hk, apply], .started ⟨hcommand, Arguments.toList_path s.args⟩⟩

variable {d d' : Draft} {s : Statement}

theorem Step.variables (h : Step d s d') :
    (∃ name value, s.Assigns name value ∧ d'.variables = d.variables.insert name value) ∨
      (∀ name value, ¬ s.Assigns name value) ∧ d'.variables = d.variables := by
  cases h with
  | assigned ha => exact .inl ⟨_, _, ha, rfl⟩
  | mismatch _ hnone => exact .inr ⟨fun name value ha => hnone ⟨name, value, ha.2⟩, rfl⟩
  | unknown hcommand => exact .inr ⟨fun _ _ ha => by simp [ha.1] at hcommand, rfl⟩
  | placed hd => exact .inr ⟨fun _ _ ha => by simp [Statement.Assigns, hd.1] at ha, rfl⟩
  | named hn => exact .inr ⟨fun _ _ ha => by simp [Statement.Assigns, hn.1] at ha, rfl⟩
  | started hs => exact .inr ⟨fun _ _ ha => by simp [Statement.Assigns, hs.1] at ha, rfl⟩

theorem Step.images (h : Step d s d') :
    (∃ name locator, s.Names name locator ∧ d'.images = d.images.insert name locator) ∨
      (∀ name locator, ¬ s.Names name locator) ∧ d'.images = d.images := by
  cases h with
  | named hn => exact .inl ⟨_, _, hn, rfl⟩
  | unknown hcommand => exact .inr ⟨fun _ _ hn => by simp [hn.1] at hcommand, rfl⟩
  | mismatch hvar => exact .inr ⟨fun _ _ hn => by simp [Statement.Names, hvar] at hn, rfl⟩
  | assigned ha => exact .inr ⟨fun _ _ hn => by simp [Statement.Names, ha.1] at hn, rfl⟩
  | placed hd => exact .inr ⟨fun _ _ hn => by simp [Statement.Names, hd.1] at hn, rfl⟩
  | started hs => exact .inr ⟨fun _ _ hn => by simp [Statement.Names, hs.1] at hn, rfl⟩

theorem Step.initial? (h : Step d s d') :
    (∃ locator, s.Starts locator ∧ d'.initial? = if locator = "" then none else some locator) ∨
      (∀ locator, ¬ s.Starts locator) ∧ d'.initial? = d.initial? := by
  cases h with
  | started hs => exact .inl ⟨_, hs, rfl⟩
  | unknown hcommand => exact .inr ⟨fun _ hs => by simp [hs.1] at hcommand, rfl⟩
  | mismatch hvar => exact .inr ⟨fun _ hs => by simp [Statement.Starts, hvar] at hs, rfl⟩
  | assigned ha => exact .inr ⟨fun _ hs => by simp [Statement.Starts, ha.1] at hs, rfl⟩
  | placed hd => exact .inr ⟨fun _ hs => by simp [Statement.Starts, hd.1] at hs, rfl⟩
  | named hn => exact .inr ⟨fun _ hs => by simp [Statement.Starts, hn.1] at hs, rfl⟩

theorem Step.axes (h : Step d s d') :
    (∃ a : Axis, s.Declares a.name a.stride ∧ d'.axes = placeAxis a d.axes) ∨
      s.command ≠ "range" ∧ d'.axes = d.axes := by
  cases h with
  | placed hd => exact .inl ⟨_, hd, rfl⟩
  | unknown hcommand => exact .inr ⟨fun hrange => by simp [hrange] at hcommand, rfl⟩
  | mismatch hvar => exact .inr ⟨fun hrange => by simp [hrange] at hvar, rfl⟩
  | assigned ha => exact .inr ⟨fun hrange => by simp [Statement.Assigns, hrange] at ha, rfl⟩
  | named hn => exact .inr ⟨fun hrange => by simp [Statement.Names, hrange] at hn, rfl⟩
  | started hs => exact .inr ⟨fun hrange => by simp [Statement.Starts, hrange] at hs, rfl⟩

theorem Step.diagnostics (h : Step d s d') :
    d'.diagnostics.toList = d.diagnostics.toList ++ s.diagnostic?.toList := by
  cases h with
  | unknown hcommand =>
    rw [Statement.diagnostic?, if_pos hcommand]
    simp [note]
  | mismatch hcommand hnone =>
    rw [Statement.diagnostic?, if_neg (by simp [hcommand]), if_pos ⟨hcommand, hnone⟩]
    simp [note]
  | @assigned name value ha =>
    have hsome : ∃ name value, Arguments.Assigns s.args name value := ⟨name, value, ha.2⟩
    rw [Statement.diagnostic?, if_neg (by simp [ha.1]), if_neg fun h => h.2 hsome]
    simp [setVariable]
  | placed hd => simp [Statement.diagnostic?, hd.1, setAxis]
  | named hn => simp [Statement.diagnostic?, hn.1, setImage]
  | started hs => simp [Statement.diagnostic?, hs.1, setInitial]

end Draft
end StampGrid
