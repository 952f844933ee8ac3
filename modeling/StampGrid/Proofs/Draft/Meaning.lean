import Mathlib.Data.List.Induction
import StampGrid.Proofs.Draft.Steps

/-!
# What a list of statements means

The meaning of a script does not mention the order in which a draft is filled:
the last statement about a variable, an image or an axis counts, the first one
about an axis gives its place, and the first statement that fails ends all. One
step keeps the draft at the meaning of the statements carried out so far.
-/
namespace StampGrid

/-- Of the statements that say anything by `P`, the last one says `v`. -/
def LastSays {α : Type} (P : Statement → α → Prop) (ss : List Statement) (v : α) : Prop :=
  ∃ before s after, ss = before ++ s :: after ∧ P s v ∧ ∀ t ∈ after, ∀ w, ¬ P t w

theorem not_lastSays_nil {α : Type} {P : Statement → α → Prop} {v : α} :
    ¬ LastSays P [] v := by
  rintro ⟨before, s, after, h, -⟩
  simp at h

theorem lastSays_append_singleton {α : Type} {P : Statement → α → Prop} {ss : List Statement}
    {t : Statement} {v : α} :
    LastSays P (ss ++ [t]) v ↔ P t v ∨ (∀ w, ¬ P t w) ∧ LastSays P ss v := by
  constructor
  · rintro ⟨before, s, after, heq, hsaid, hafter⟩
    rcases List.eq_nil_or_concat after with rfl | ⟨after, t', rfl⟩
    · obtain ⟨rfl, rfl⟩ := List.append_singleton_inj.mp heq
      exact .inl hsaid
    · rw [List.concat_eq_append] at heq hafter
      rw [show before ++ s :: (after ++ [t']) = before ++ s :: after ++ [t'] by simp] at heq
      obtain ⟨rfl, rfl⟩ := List.append_singleton_inj.mp heq
      exact .inr ⟨hafter t (by simp), before, s, after, rfl, hsaid, fun t' ht' =>
        hafter t' (List.mem_append_left _ ht')⟩
  · rintro (hsaid | ⟨hsilent, before, s, after, rfl, hsaid, hafter⟩)
    · exact ⟨ss, t, [], rfl, hsaid, by simp⟩
    · refine ⟨before, s, after ++ [t], by simp, hsaid, fun t' ht' => ?_⟩
      rcases List.mem_append.mp ht' with ht' | ht'
      · exact hafter t' ht'
      · rwa [List.mem_singleton.mp ht']

/-- A name joins the names met so far only if it is not one of them. -/
theorem eraseDups_append_singleton (names : List String) (name : String) :
    (names ++ [name]).eraseDups =
      if name ∈ names then names.eraseDups else names.eraseDups ++ [name] := by
  rw [List.eraseDups_append]
  split
  · next h => simp [List.removeAll, h]
  · next h => simp [List.removeAll, h, List.eraseDups_cons]

theorem nodup_eraseDups (names : List String) : names.eraseDups.Nodup := by
  induction names using List.reverseRecOn with
  | nil => simp
  | append_singleton names name ih =>
    rw [eraseDups_append_singleton]
    split
    · exact ih
    · next h =>
      refine List.nodup_append.mpr ⟨ih, by simp, ?_⟩
      intro other hother name' hname' heq
      rw [List.mem_singleton.mp hname'] at heq
      exact h (List.mem_eraseDups.mp (heq ▸ hother))

namespace Draft

theorem names_placeAxis (a : Axis) (axes : List Axis) :
    (placeAxis a axes).map Axis.name =
      if a.name ∈ axes.map Axis.name then axes.map Axis.name
      else axes.map Axis.name ++ [a.name] := by
  induction axes with
  | nil => rfl
  | cons b axes ih =>
    by_cases hb : b.name = a.name
    · simp [placeAxis, hb]
    · have hba : ¬ a.name = b.name := fun h => hb h.symm
      simp only [placeAxis, if_neg hb, List.map_cons, ih, List.mem_cons, hba, false_or]
      split <;> simp

/-- The axis takes the place of the first one with its name, or the innermost place if there
is none. All others stay in their places. -/
inductive Placed (a : Axis) : List Axis → List Axis → Prop
  | again {before after : List Axis} {old : Axis} (hname : old.name = a.name)
      (hfirst : ∀ b ∈ before, b.name ≠ a.name) :
      Placed a (before ++ old :: after) (before ++ a :: after)
  | innermost {axes : List Axis} (hnew : ∀ b ∈ axes, b.name ≠ a.name) :
      Placed a axes (axes ++ [a])

theorem Placed.cons {a b : Axis} {axes axes' : List Axis} (hb : b.name ≠ a.name)
    (h : Placed a axes axes') : Placed a (b :: axes) (b :: axes') := by
  cases h with
  | @again before after old hname hfirst =>
    exact @Placed.again a (b :: before) after old hname (List.forall_mem_cons.mpr ⟨hb, hfirst⟩)
  | innermost hnew => exact .innermost (List.forall_mem_cons.mpr ⟨hb, hnew⟩)

theorem placed_placeAxis (a : Axis) (axes : List Axis) : Placed a axes (placeAxis a axes) := by
  induction axes with
  | nil => exact .innermost (by simp)
  | cons b axes ih =>
    by_cases hb : b.name = a.name
    · rw [placeAxis, if_pos hb]
      exact @Placed.again a [] axes b hb (by simp)
    · rw [placeAxis, if_neg hb]
      exact ih.cons hb

theorem placeAxis_append {a : Axis} {before : List Axis} (h : ∀ b ∈ before, b.name ≠ a.name)
    (axes : List Axis) : placeAxis a (before ++ axes) = before ++ placeAxis a axes := by
  induction before with
  | nil => rfl
  | cons b before ih =>
    obtain ⟨hb, hbefore⟩ := List.forall_mem_cons.mp h
    rw [List.cons_append, placeAxis, if_neg hb, ih hbefore, List.cons_append]

theorem placed_iff {a : Axis} {axes axes' : List Axis} :
    Placed a axes axes' ↔ axes' = placeAxis a axes := by
  constructor
  · intro h
    cases h with
    | again hname hfirst => rw [placeAxis_append hfirst, placeAxis, if_pos hname]
    | innermost hnew => simpa [placeAxis] using (placeAxis_append hnew []).symm
  · rintro rfl
    exact placed_placeAxis a axes

/-- Where no name stands twice, placing an axis takes away the one with its name. -/
theorem mem_placeAxis {a b : Axis} {axes : List Axis} (hnodup : (axes.map Axis.name).Nodup)
    (h : b ∈ placeAxis a axes) : b = a ∨ b ∈ axes ∧ b.name ≠ a.name := by
  induction axes with
  | nil => exact .inl (by simpa [placeAxis] using h)
  | cons c axes ih =>
    obtain ⟨hc, hrest⟩ := List.nodup_cons.mp hnodup
    by_cases hca : c.name = a.name
    · rw [placeAxis, if_pos hca] at h
      rcases List.mem_cons.mp h with rfl | hb
      · exact .inl rfl
      · exact .inr ⟨List.mem_cons_of_mem _ hb, fun hba =>
          hc (hca.trans hba.symm ▸ List.mem_map_of_mem hb)⟩
    · rw [placeAxis, if_neg hca] at h
      rcases List.mem_cons.mp h with rfl | hb
      · exact .inr ⟨List.mem_cons_self, hca⟩
      · exact (ih hrest hb).imp id fun hb => ⟨List.mem_cons_of_mem _ hb.1, hb.2⟩

/-- The draft is what these statements say, if none of them fails. -/
structure Describes (d : Draft) (ss : List Statement) : Prop where
  variable_iff : ∀ name value,
    d.variables.get? name = some value ↔ LastSays (·.Assigns name) ss value
  image_iff : ∀ name locator,
    d.images.get? name = some locator ↔ LastSays (·.Names name) ss locator
  initial_iff : ∀ locator,
    d.initial? = some locator ↔ LastSays Statement.Starts ss locator ∧ locator ≠ ""
  /-- The names of the axes, each at the place of its first declaration. -/
  axis_names : d.axes.map Axis.name = (ss.filterMap Statement.axisName?).eraseDups
  axis_strides : ∀ a ∈ d.axes, LastSays (·.Declares a.name) ss a.stride
  diagnostics : d.diagnostics.toList = ss.filterMap Statement.diagnostic?

theorem describes_nil : Describes {} [] where
  variable_iff := fun _ _ => iff_of_false (by simp) not_lastSays_nil
  image_iff := fun _ _ => iff_of_false (by simp) not_lastSays_nil
  initial_iff := fun _ => iff_of_false (by simp) fun h => not_lastSays_nil h.1
  axis_names := rfl
  axis_strides := fun _ h => by simp at h
  diagnostics := rfl

/-- A table that follows what is said of each name still does so behind one more
statement, if that one binds what it says or leaves the table as it was. -/
theorem get?_eq_some_iff_append_singleton {P : Statement → String → String → Prop}
    {t t' : Table String} {ss : List Statement} {s : Statement}
    (hunique : ∀ {name value name' value'}, P s name value → P s name' value' →
      name' = name ∧ value' = value)
    (h : ∀ name value, t.get? name = some value ↔ LastSays (P · name) ss value)
    (hstep : (∃ name value, P s name value ∧ t' = t.insert name value) ∨
      (∀ name value, ¬ P s name value) ∧ t' = t) (name value : String) :
    t'.get? name = some value ↔ LastSays (P · name) (ss ++ [s]) value := by
  rw [lastSays_append_singleton]
  rcases hstep with ⟨name', value', hsaid, rfl⟩ | ⟨hsilent, rfl⟩
  · rw [Table.get?_insert]
    by_cases hname : name' = name
    · subst hname
      have honly : P s name' value ↔ value = value' :=
        ⟨fun h => (hunique hsaid h).2, fun h => h ▸ hsaid⟩
      have hsome : ¬ ∀ w, ¬ P s name' w := fun h => h value' hsaid
      simp [honly, hsome, eq_comm]
    · have hother : ∀ w, ¬ P s name w := fun w h => hname (hunique hsaid h).1.symm
      simp [hname, hother, h]
  · simp [hsilent, h]

/-- A statement carried out is described with those before it. -/
theorem Describes.step {d d' : Draft} {ss : List Statement} {s : Statement} (h : d.Describes ss)
    (hstep : Step d s d') : d'.Describes (ss ++ [s]) where
  variable_iff := get?_eq_some_iff_append_singleton (P := Statement.Assigns)
    Statement.Assigns.unique h.variable_iff hstep.variables
  image_iff := get?_eq_some_iff_append_singleton (P := Statement.Names)
    Statement.Names.unique h.image_iff hstep.images
  initial_iff := by
    intro locator
    rw [lastSays_append_singleton]
    rcases hstep.initial? with ⟨locator', hsaid, heq⟩ | ⟨hsilent, heq⟩
    · have honly : s.Starts locator ↔ locator = locator' :=
        ⟨fun h => hsaid.unique h, fun h => h ▸ hsaid⟩
      have hsome : ¬ ∀ w, ¬ s.Starts w := fun h => h locator' hsaid
      rw [heq]
      by_cases hempty : locator' = ""
      · simp [honly, hsome, hempty]
      · simp only [honly, hsome, if_neg hempty, Option.some.injEq, false_and, or_false]
        constructor
        · rintro rfl
          exact ⟨rfl, hempty⟩
        · rintro ⟨rfl, -⟩
          rfl
    · simp [heq, hsilent, h.initial_iff]
  axis_names := by
    rw [List.filterMap_append]
    rcases hstep.axes with ⟨a, hdeclares, heq⟩ | ⟨hother, heq⟩
    · rw [heq, names_placeAxis, show [s].filterMap Statement.axisName? = [a.name] by
        simp [hdeclares.axisName?_eq], eraseDups_append_singleton]
      simp only [h.axis_names, List.mem_eraseDups]
    · have hsilent : s.axisName? = none := by simp [Statement.axisName?, hother]
      simp [heq, h.axis_names, hsilent]
  axis_strides := by
    intro b hb
    rw [lastSays_append_singleton]
    rcases hstep.axes with ⟨a, hdeclares, heq⟩ | ⟨hother, heq⟩
    · have hnodup : (d.axes.map Axis.name).Nodup := h.axis_names ▸ nodup_eraseDups _
      rw [heq] at hb
      rcases mem_placeAxis hnodup hb with rfl | ⟨hb, hname⟩
      · exact .inl hdeclares
      · exact .inr ⟨fun w hw => hname (hdeclares.unique hw).1, h.axis_strides b hb⟩
    · exact .inr ⟨fun w hw => hother hw.1, h.axis_strides b (heq ▸ hb)⟩
  diagnostics := by
    rw [hstep.diagnostics, h.diagnostics, List.filterMap_append]
    cases hs : s.diagnostic? <;> simp [hs]

theorem Describes.runAll {d : Draft} {ss ts : List Statement} (h : d.Describes ss)
    (hts : ∀ t ∈ ts, ¬ t.Fatal) :
    ∃ d', d.runAll ts = (.ok (), d') ∧ d'.Describes (ss ++ ts) := by
  induction ts generalizing d ss with
  | nil => exact ⟨d, rfl, by simpa using h⟩
  | cons t ts ih =>
    obtain ⟨d₁, hrun, hstep⟩ := run_of_not_fatal d (hts t List.mem_cons_self)
    obtain ⟨d', hrest, hd'⟩ := ih (h.step hstep) fun u hu => hts u (List.mem_cons_of_mem _ hu)
    exact ⟨d', by simp only [Draft.runAll, hrun, hrest], by simpa using hd'⟩

/-- The first of the statements that fails does so for this reason, told with its line. -/
def FirstFails (ss : List Statement) (fault : Fault) : Prop :=
  ∃ before s after cause, ss = before ++ s :: after ∧ (∀ t ∈ before, ¬ t.Fatal) ∧
    s.Fails cause ∧ fault = .atLine s.line cause

theorem firstFails_or_not_fatal (ss : List Statement) :
    (∃ fault, FirstFails ss fault) ∨ ∀ s ∈ ss, ¬ s.Fatal := by
  induction ss with
  | nil => exact .inr fun s hs => by simp at hs
  | cons s ss ih =>
    by_cases hs : s.Fatal
    · obtain ⟨cause, hfails⟩ := hs.exists_fails
      exact .inl ⟨_, [], s, ss, cause, rfl, by simp, hfails, rfl⟩
    · rcases ih with ⟨_, before, t, after, cause, rfl, hbefore, hfails, rfl⟩ | hall
      · refine .inl ⟨_, s :: before, t, after, cause, rfl, fun u hu => ?_, hfails, rfl⟩
        rcases List.mem_cons.mp hu with rfl | hu
        · exact hs
        · exact hbefore u hu
      · refine .inr fun u hu => ?_
        rcases List.mem_cons.mp hu with rfl | hu
        · exact hs
        · exact hall u hu

/-- The draft that statements describe, or the fault of the first that fails. -/
def ofStatements (ss : List Statement) : Except Fault Draft :=
  match runAll {} ss with
  | (.ok (), d) => .ok d
  | (.error fault, _) => .error fault

/-- Nothing behind a failure is looked at. -/
theorem ofStatements_of_firstFails {ss : List Statement} {fault : Fault}
    (h : FirstFails ss fault) : ofStatements ss = .error fault := by
  obtain ⟨before, s, after, cause, rfl, hbefore, hfails, rfl⟩ := h
  obtain ⟨d, hrun, -⟩ := describes_nil.runAll hbefore
  simp only [ofStatements, runAll_append, hrun, Draft.runAll, run_of_fails d hfails]

theorem ofStatements_of_not_fatal {ss : List Statement} (h : ∀ s ∈ ss, ¬ s.Fatal) :
    ∃ d, ofStatements ss = .ok d ∧ d.Describes ss := by
  obtain ⟨d, hrun, hd⟩ := describes_nil.runAll h
  exact ⟨d, by simp only [ofStatements, hrun], by simpa using hd⟩

theorem ofStatements_eq_error_iff {ss : List Statement} {fault : Fault} :
    ofStatements ss = .error fault ↔ FirstFails ss fault := by
  refine ⟨fun h => ?_, ofStatements_of_firstFails⟩
  rcases firstFails_or_not_fatal ss with ⟨first, hfirst⟩ | hall
  · rw [ofStatements_of_firstFails hfirst, Except.error.injEq] at h
    exact h ▸ hfirst
  · obtain ⟨d, hd, -⟩ := ofStatements_of_not_fatal hall
    rw [hd] at h
    contradiction

theorem exists_ofStatements_eq_ok_iff {ss : List Statement} :
    (∃ d, ofStatements ss = .ok d) ↔ ∀ s ∈ ss, ¬ s.Fatal := by
  constructor
  · rintro ⟨d, hd⟩
    rcases firstFails_or_not_fatal ss with ⟨first, hfirst⟩ | hall
    · rw [ofStatements_of_firstFails hfirst] at hd
      contradiction
    · exact hall
  · intro hall
    obtain ⟨d, hd, -⟩ := ofStatements_of_not_fatal hall
    exact ⟨d, hd⟩

theorem describes_of_ofStatements_eq_ok {ss : List Statement} {d : Draft}
    (h : ofStatements ss = .ok d) : d.Describes ss := by
  obtain ⟨d', hd', hdescribes⟩ :=
    ofStatements_of_not_fatal (exists_ofStatements_eq_ok_iff.mp ⟨d, h⟩)
  rw [hd', Except.ok.injEq] at h
  exact h ▸ hdescribes

end Draft
end StampGrid
