import StampGrid.Proofs.Backend.Confinement
import StampGrid.Proofs.CommandLine.Precedence

/-!
# A failed run leaves the disk alone

A run touches the disk in one place only: when the result is written, at the end. What
stops it before leaves the disk as it was, and what it changes at the end is the entry
that the path of the output leads to and the folders that were missing for it.
-/
namespace StampGrid.CommandLine.RunOptions

variable {σ ι : Type}

/-- Why a run stops once the backend is there: an image cannot be loaded, the size
variable holds no size, or rendering stops. -/
inductive StopsWith (options : RunOptions) (b : Backend σ ι) (draft : Draft) (state : σ) : Prop
  | load {fault : Fault} {state' : σ}
      (h : (Scene.ofDraft b draft).perform state = (.error fault, state'))
  | size (h : ¬ SizeReadable draft.variables)
  | render {s : Scene ι} {state' : σ}
      (hscene : (Scene.ofDraft b draft).perform state = (.ok s, state'))
      (h : s.Stops b (options.chosen draft.variables) state')

/-- Among the requests that are made of the backend there is one for writing. -/
def WritesWith (options : RunOptions) (b : Backend σ ι) (draft : Draft) (state : σ) : Prop :=
  ∃ image path, Call.write image path ∈ (options.renderWith b.recording draft (state, #[])).2.2

/-- How a run goes with a backend: it stops while it prepares, or it gets through to the
writing of the output. -/
theorem renderWith_stops_or_writes (options : RunOptions) (b : Backend σ ι) (draft : Draft)
    (state : σ) :
    (options.StopsWith b draft state ∧ ¬ options.WritesWith b draft state ∧
      ∃ failure state', options.renderWith b draft state = (.error failure, state') ∧
        b.Prepares state state') ∨
    (¬ options.StopsWith b draft state ∧ options.WritesWith b draft state ∧
      ∃ state₁ image, b.Prepares state state₁ ∧
        (options.renderWith b draft state).2 =
          ((b.write image (options.chosen draft.variables).out).perform state₁).2) := by
  obtain ⟨loaded, state₁, locators, hload, hprepares⟩ := Scene.onlyLoads_ofDraft b draft state
  have hrecord := hload.records #[]
  cases loaded with
  | error fault =>
    refine .inl ⟨.load hload.performs, ?_, .under "load script images" fault.chain, state₁, ?_,
      hprepares⟩
    · simp [WritesWith, renderWith, hrecord]
    · simp only [renderWith, hload.performs]
  | ok s =>
    by_cases hsize : SizeReadable draft.variables
    · rcases s.render_stops_or_writes b (options.chosen draft.variables) state₁ with
        ⟨hstops, fault, state₂, requests, hmakes, hnone, hmore⟩ |
        ⟨hthrough, state₂, image, result, state₃, requests, hmore, hwrite, hmakes, hrequest⟩
      · refine .inl ⟨.render hload.performs hstops, ?_, .ofChain fault.chain, state₂, ?_,
          hprepares.trans hmore⟩
        · simp [WritesWith, renderWith_of_sizeReadable _ hsize, renderUnder, hrecord,
            hmakes.records, hnone]
        · simp only [renderWith_of_sizeReadable _ hsize, renderUnder, hload.performs,
            hmakes.performs]
      · refine .inr ⟨fun hstops => ?_, ⟨image, (options.chosen draft.variables).out, ?_⟩, state₂,
          image, hprepares.trans hmore, ?_⟩
        · cases hstops with
          | load h => cases hload.performs.symm.trans h
          | size h => exact h hsize
          | render hscene h =>
            obtain ⟨hs, rfl⟩ := Prod.mk.inj (hload.performs.symm.trans hscene)
            obtain rfl := Except.ok.inj hs
            exact hthrough h
        · rw [renderWith_of_sizeReadable _ hsize]
          cases result <;>
            simp [renderUnder, hrecord, hmakes.records, Except.map, hrequest]
        · rw [renderWith_of_sizeReadable _ hsize, hwrite]
          cases result <;>
            simp [renderUnder, hload.performs, hmakes.performs, Except.map]
    · obtain ⟨text, malformed, htext, hmalformed⟩ := exists_malformed_of_not_sizeReadable hsize
      refine .inl ⟨.size hsize, ?_, ⟨s!"variable 'size': {malformed.message}", []⟩, state₁, ?_,
        hprepares⟩
      · simp [WritesWith, renderWith_of_malformed _ htext hmalformed, refuseSize, hrecord]
      · simp only [renderWith_of_malformed _ htext hmalformed, refuseSize, hload.performs]

theorem stopsWith_iff (options : RunOptions) (b : Backend σ ι) (draft : Draft) (state : σ) :
    options.StopsWith b draft state ↔ ¬ options.WritesWith b draft state := by
  rcases options.renderWith_stops_or_writes b draft state with ⟨hstops, hnone, -⟩ |
    ⟨hthrough, hwrites, -⟩
  · exact iff_of_true hstops hnone
  · exact iff_of_false hthrough fun hnone => hnone hwrites

variable {b : Backend σ ι} {disk : σ → Disk} {options : RunOptions} {draft : Draft} {state : σ}

/-- What stops a run with a confined backend leaves the disk alone. -/
theorem renderWith_of_stopsWith (hb : b.IsConfined disk)
    (h : options.StopsWith b draft state) :
    ∃ failure state', options.renderWith b draft state = (.error failure, state') ∧
      disk state' = disk state := by
  rcases options.renderWith_stops_or_writes b draft state with
    ⟨-, -, failure, state', hrun, hprepares⟩ | ⟨hthrough, -⟩
  · exact ⟨failure, state', hrun, hprepares.disk_eq hb⟩
  · exact absurd h hthrough

theorem onlyAlters_renderWith (options : RunOptions) (draft : Draft) (state : σ)
    (hb : b.IsConfined disk) :
    (disk state).OnlyAlters (disk (options.renderWith b draft state).2)
      (options.chosen draft.variables).out := by
  rcases options.renderWith_stops_or_writes b draft state with
    ⟨-, -, failure, state', hrun, hprepares⟩ | ⟨-, -, state₁, image, hprepares, hrun⟩
  · intro name hname
    rw [hrun, hprepares.disk_eq hb] at hname
    exact absurd rfl hname
  · rw [hrun, ← hprepares.disk_eq hb]
    exact hb.write image _ state₁

/-! ## The whole run -/

/-- The answer of the external program when it is asked for its version, and the session
behind it. -/
def probe (options : RunOptions) (programs : Magick.Programs) (d : Disk) : Bool × Magick.Session :=
  Magick.isAvailable programs (options.program?.getD defaultProgram) { disk := d }

/-- Why a run fails before anything is written: the script cannot be opened or read, the
external program is not available, or the run stops with the backend. -/
inductive FailsEarly (options : RunOptions) (programs : Magick.Programs) (stdin : List UInt8)
    (d : Disk) : Prop
  | script {failure : Failure} (h : options.draft stdin d = .error failure)
  | unavailable (hbackend : options.backend?.getD .magick = .magick)
      (h : (options.probe programs d).1 = false)
  | magick {draft : Draft} (hdraft : options.draft stdin d = .ok draft)
      (hbackend : options.backend?.getD .magick = .magick)
      (h : options.StopsWith (Magick.backend programs (options.program?.getD defaultProgram)) draft
        (options.probe programs d).2)
  | raster {draft : Draft} (hdraft : options.draft stdin d = .ok draft)
      (hbackend : options.backend?.getD .magick = .raster)
      (h : options.StopsWith (Painter.backend ".") draft d)

/-- The run gets as far as asking its backend for the writing of the output. -/
def ReachesWriting (options : RunOptions) (programs : Magick.Programs) (stdin : List UInt8)
    (d : Disk) : Prop :=
  ∃ draft, options.draft stdin d = .ok draft ∧
    match options.backend?.getD .magick with
    | .magick => (options.probe programs d).1 = true ∧
        options.WritesWith (Magick.backend programs (options.program?.getD defaultProgram)) draft
          (options.probe programs d).2
    | .raster => options.WritesWith (Painter.backend ".") draft d

variable {programs : Magick.Programs} {stdin : List UInt8} {d : Disk}

theorem FailsEarly.stopsWith_raster (h : options.FailsEarly programs stdin d)
    (hdraft : options.draft stdin d = .ok draft)
    (hbackend : options.backend?.getD .magick = .raster) :
    options.StopsWith (Painter.backend ".") draft d := by
  cases h with
  | script h => cases hdraft.symm.trans h
  | unavailable h => cases hbackend.symm.trans h
  | magick _ h => cases hbackend.symm.trans h
  | raster h _ hstops =>
    obtain rfl := Except.ok.inj (hdraft.symm.trans h)
    exact hstops

theorem FailsEarly.stopsWith_magick (h : options.FailsEarly programs stdin d)
    (hdraft : options.draft stdin d = .ok draft)
    (hbackend : options.backend?.getD .magick = .magick)
    (havailable : (options.probe programs d).1 = true) :
    options.StopsWith (Magick.backend programs (options.program?.getD defaultProgram)) draft
      (options.probe programs d).2 := by
  cases h with
  | script h => cases hdraft.symm.trans h
  | unavailable _ h => cases havailable.symm.trans h
  | raster _ h => cases hbackend.symm.trans h
  | magick h _ hstops =>
    obtain rfl := Except.ok.inj (hdraft.symm.trans h)
    exact hstops

theorem failsEarly_iff :
    options.FailsEarly programs stdin d ↔ ¬ options.ReachesWriting programs stdin d := by
  unfold ReachesWriting
  cases hdraft : options.draft stdin d with
  | error failure => exact iff_of_true (.script hdraft) (by simp)
  | ok draft =>
    cases hbackend : options.backend?.getD .magick with
    | raster =>
      simp only [Except.ok.injEq, exists_eq_left', ← stopsWith_iff]
      exact ⟨fun h => h.stopsWith_raster hdraft hbackend, .raster hdraft hbackend⟩
    | magick =>
      simp only [Except.ok.injEq, exists_eq_left', not_and, ← stopsWith_iff]
      refine ⟨fun h => h.stopsWith_magick hdraft hbackend, fun h => ?_⟩
      cases havailable : (options.probe programs d).1 with
      | false => exact .unavailable hbackend havailable
      | true => exact .magick hdraft hbackend (h havailable)

theorem render_of_raster (hbackend : options.backend?.getD .magick = .raster) :
    options.render programs draft d = options.renderWith (Painter.backend ".") draft d := by
  simp only [render, hbackend]

theorem render_of_unavailable (draft : Draft) (hbackend : options.backend?.getD .magick = .magick)
    (h : (options.probe programs d).1 = false) :
    ∃ failure, options.render programs draft d =
      (.error failure, (options.probe programs d).2.disk) := by
  rcases hprobe : options.probe programs d with ⟨available, session⟩
  rw [hprobe] at h
  obtain rfl := h
  unfold probe at hprobe
  simp only [render, hbackend, hprobe]
  exact ⟨_, rfl⟩

theorem render_of_available (hbackend : options.backend?.getD .magick = .magick)
    (h : (options.probe programs d).1 = true) :
    options.render programs draft d =
      Prod.map id Magick.Session.disk (options.renderWith
        (Magick.backend programs (options.program?.getD defaultProgram)) draft
          (options.probe programs d).2) := by
  rcases hprobe : options.probe programs d with ⟨available, session⟩
  rw [hprobe] at h
  obtain rfl := h
  unfold probe at hprobe
  simp only [render, hbackend, hprobe]
  rfl

/-- What the outcome of a rendering says and leaves behind. -/
theorem execute_of_render (programs : Magick.Programs)
    (hdraft : options.draft stdin d = .ok draft) :
    (options.execute programs stdin d).2 = (options.render programs draft d).2 ∧
      ∀ failure, (options.render programs draft d).1 = .error failure →
        (options.execute programs stdin d).1.status = 1 := by
  simp only [execute, hdraft]
  rcases options.render programs draft d with ⟨failure | ⟨out, stamps⟩, d'⟩
  · exact ⟨rfl, fun _ _ => rfl⟩
  · exact ⟨rfl, fun _ h => by cases h⟩

section

variable (hprogram : options.backend?.getD .magick = .magick →
  ∀ behaviour, programs (options.program?.getD defaultProgram) = some behaviour →
    Magick.KeepsToDestination behaviour)
include hprogram

theorem disk_of_probe (hbackend : options.backend?.getD .magick = .magick) :
    (options.probe programs d).2.disk = d := by
  unfold probe
  rw [Magick.session_of_isAvailable]
  exact Magick.disk_of_start (hprogram hbackend) (by simp) [] { disk := d }

/-- Rendering fails and leaves the disk alone if the run fails early, and changes at
most the output and its folders in any case. -/
theorem render_alters (hdraft : options.draft stdin d = .ok draft) :
    (options.FailsEarly programs stdin d →
      ∃ failure, options.render programs draft d = (.error failure, d)) ∧
    d.OnlyAlters (options.render programs draft d).2 (options.chosen draft.variables).out := by
  cases hbackend : options.backend?.getD .magick with
  | raster =>
    have hconfined := Painter.isConfined_backend "."
    rw [render_of_raster hbackend]
    refine ⟨fun h => ?_, onlyAlters_renderWith options draft d hconfined⟩
    obtain ⟨failure, d', hrun, rfl⟩ :=
      renderWith_of_stopsWith hconfined (h.stopsWith_raster hdraft hbackend)
    exact ⟨failure, hrun⟩
  | magick =>
    have hconfined := Magick.isConfined_backend (hprogram hbackend)
    have hprobe : (options.probe programs d).2.disk = d := disk_of_probe hprogram hbackend
    cases havailable : (options.probe programs d).1 with
    | false =>
      obtain ⟨failure, hrender⟩ := render_of_unavailable draft hbackend havailable
      rw [hrender, hprobe]
      exact ⟨fun _ => ⟨failure, rfl⟩, fun name hname => absurd rfl hname⟩
    | true =>
      rw [render_of_available hbackend havailable]
      refine ⟨fun h => ?_, ?_⟩
      · obtain ⟨failure, session, hrun, hdisk⟩ :=
          renderWith_of_stopsWith hconfined (h.stopsWith_magick hdraft hbackend havailable)
        refine ⟨failure, ?_⟩
        rw [hrun, Prod.map_apply, hdisk, hprobe]
        rfl
      · have halters := onlyAlters_renderWith options draft (options.probe programs d).2 hconfined
        rw [hprobe] at halters
        exact halters

end

/-- A run that does not get to the writing of its output fails and leaves the disk as it
was; the ways in which this comes about are listed. Whatever a run comes to, it changes
no more than the entry that the path of the output leads to and the folders that were
missing for it. The external program is trusted to write at most its destination. -/
theorem failed_run_leaves_disk (options : RunOptions) (programs : Magick.Programs)
    (stdin : List UInt8) (d : Disk)
    (hprogram : options.backend?.getD .magick = .magick →
      ∀ behaviour, programs (options.program?.getD defaultProgram) = some behaviour →
        Magick.KeepsToDestination behaviour) :
    let ended := options.execute programs stdin d
    (options.FailsEarly programs stdin d ↔ ¬ options.ReachesWriting programs stdin d) ∧
    (¬ options.ReachesWriting programs stdin d → ended.1.status ≠ 0 ∧ ended.2 = d) ∧
    ∀ draft, options.draft stdin d = .ok draft →
      d.OnlyAlters ended.2 (options.chosen draft.variables).out := by
  intro ended
  refine ⟨failsEarly_iff, fun hnone => ?_, fun draft hdraft => ?_⟩
  · have hfails := failsEarly_iff.mpr hnone
    cases hdraft : options.draft stdin d with
    | error failure => simp [ended, execute, hdraft]
    | ok draft =>
      obtain ⟨failure, hrender⟩ := (render_alters hprogram hdraft).1 hfails
      obtain ⟨hdisk, hstatus⟩ := execute_of_render programs hdraft
      rw [hrender] at hdisk hstatus
      exact ⟨by simp [ended, hstatus failure rfl], hdisk⟩
  · rw [(execute_of_render programs hdraft).1]
    exact (render_alters hprogram hdraft).2

/-- A program that stores what it reads at its destination, or else prints it. -/
def storing : Magick.Program := fun args stdin d =>
  match args with
  | [_, path] =>
    match d.writeFile path (.octets stdin) with
    | .ok d' => (⟨.exit 0, [], []⟩, d')
    | .error _ => (⟨.exit 1, [], []⟩, d)
  | _ => (⟨.exit 0, stdin, []⟩, d)

theorem keepsToDestination_storing : Magick.KeepsToDestination storing := by
  intro args stdin d name hname
  unfold storing at hname
  split at hname
  · next input path =>
    split at hname
    · next d' hwrite => exact ⟨input, path, rfl, Disk.leads_of_writeFile hwrite hname⟩
    · exact absurd rfl hname
  · exact absurd rfl hname

/-- Of two scripts for one output in a folder that is missing, the one with a size that is
none leaves the disk empty. -/
theorem failed_run_leaves_disk_big :
    let programs : Magick.Programs := fun name => if name = "magick" then some storing else none
    let octets (script : String) := Text.Utf8.encode script.toList
    let sized := octets "var output=\"a/b.png\"\nvar size=\"big\"\nimg fg f\nimg bg b\n"
    let plain := octets "var output=\"a/b.png\"\nimg fg f\nimg bg b\n"
    let run (stdin : List UInt8) := ({} : RunOptions).execute programs stdin {}
    (run sized).1.status ≠ 0 ∧ (run sized).2 = {} ∧ Disk.OnlyAlters {} (run plain).2 "a/b.png" := by
  intro programs octets sized plain run
  have hprogram : ∀ behaviour, programs "magick" = some behaviour →
      Magick.KeepsToDestination behaviour := by
    intro behaviour h
    obtain rfl : storing = behaviour := by simpa [programs] using h
    exact keepsToDestination_storing
  have hread {script : String} {draft : Draft}
      (h : Draft.ofStatements (Statement.all script) = .ok draft) :
      ({} : RunOptions).draft (octets script) {} = .ok draft := by
    have hdecode : Text.Utf8.decode (octets script) = script :=
      (Text.Utf8.decode_encode script.toList).trans String.ofList_toList
    rw [draft_of_stdin rfl, hdecode, h]
  obtain ⟨d, hd, hbig⟩ : ∃ d, Draft.ofStatements (Statement.all
      "var output=\"a/b.png\"\nvar size=\"big\"\nimg fg f\nimg bg b\n") = .ok d ∧
        d.variables.get? "size" = some "big" := ⟨_, rfl, rfl⟩
  obtain ⟨e, he, hout⟩ : ∃ e, Draft.ofStatements (Statement.all
      "var output=\"a/b.png\"\nimg fg f\nimg bg b\n") = .ok e ∧
        (({} : RunOptions).chosen e.variables).out = "a/b.png" := ⟨_, rfl, rfl⟩
  have hmalformed : Geometry.parse "big" = .error (.noSeparator "big") := rfl
  have hearly : ({} : RunOptions).FailsEarly programs sized {} :=
    .magick (hread hd) rfl (.size (not_sizeReadable_of_malformed hbig hmalformed))
  obtain ⟨hiff, hleaves, -⟩ := failed_run_leaves_disk {} programs sized {} fun _ => hprogram
  obtain ⟨-, -, halters⟩ := failed_run_leaves_disk {} programs plain {} fun _ => hprogram
  obtain ⟨hstatus, hdisk⟩ := hleaves (hiff.mp hearly)
  exact ⟨hstatus, hdisk, hout ▸ halters e (hread he)⟩

end StampGrid.CommandLine.RunOptions
