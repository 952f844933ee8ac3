import StampGrid.CommandLine.Execute
import StampGrid.Proofs.Draft.Variation
import StampGrid.Proofs.Render.Calls

/-!
# Which setting wins

A setting comes from its flag, else from its variable, else it has a default. A
flag hides the value of its variable, so drafts that differ in that variable alone
render in the same way. The exception is a size variable that holds no size: it is
refused before the flags are looked at, so a size flag does not hide it.
-/
namespace StampGrid

namespace Scene

variable {σ ι : Type}

/-- Loading the images of a draft needs no more of it than its images and where to start. -/
theorem exists_perform_ofDraft (b : Backend σ ι) (d : Draft) (state : σ) :
    ∃ (loaded : Except Fault (Table ι × Option ι)) (state' : σ), ∀ e : Draft,
      e.images = d.images → e.initial? = d.initial? →
      (ofDraft b e).perform state =
        (loaded.map fun found => ⟨e.variables, found.1, found.2, e.axes⟩, state') := by
  rcases himages : (loadAll b ∅ d.images.entries).perform state with ⟨fault | images, state₁⟩
  · refine ⟨.error fault, state₁, fun e hsame _ => ?_⟩
    rw [← hsame] at himages
    exact Effect.perform_bind_of_error himages
  · cases hinitial : d.initial? with
    | none =>
      refine ⟨.ok (images, none), state₁, fun e hsame hstart => ?_⟩
      rw [← hsame] at himages
      rw [ofDraft, hstart, Effect.perform_bind_of_ok himages]
      rfl
    | some locator =>
      rcases hload : (b.load locator).perform state₁ with ⟨fault | image, state₂⟩
      · refine ⟨.error fault, state₂, fun e hsame hstart => ?_⟩
        rw [← hsame] at himages
        rw [ofDraft, hstart, Effect.perform_bind_of_ok himages]
        exact Effect.perform_bind_of_error hload
      · refine ⟨.ok (images, some image), state₂, fun e hsame hstart => ?_⟩
        rw [← hsame] at himages
        rw [ofDraft, hstart, Effect.perform_bind_of_ok himages]
        exact Effect.perform_bind_of_ok hload

/-- The variables of a scene are those of its draft. -/
theorem variables_of_ofDraft {b : Backend σ ι} {d : Draft} {state state' : σ} {s : Scene ι}
    (h : (ofDraft b d).perform state = (.ok s, state')) : s.variables = d.variables := by
  obtain ⟨loaded, state₁, hloaded⟩ := exists_perform_ofDraft b d state
  rw [hloaded d rfl rfl] at h
  cases loaded with
  | error fault => cases h
  | ok found =>
    obtain ⟨hs, -⟩ := Prod.mk.inj h
    rw [← Except.ok.inj hs]

end Scene

namespace CommandLine

/-- The size variable holds a size, if it is set. -/
def SizeReadable (values : Table String) : Prop :=
  ∀ text, values.get? "size" = some text → ∃ size, Geometry.parse text = .ok size

theorem exists_malformed_of_not_sizeReadable {values : Table String} (h : ¬ SizeReadable values) :
    ∃ text malformed, values.get? "size" = some text ∧ Geometry.parse text = .error malformed := by
  simp only [SizeReadable, not_forall] at h
  obtain ⟨text, htext, hnone⟩ := h
  cases hparse : Geometry.parse text with
  | error malformed => exact ⟨text, malformed, htext, hparse⟩
  | ok size => exact absurd ⟨size, hparse⟩ hnone

theorem not_sizeReadable_of_malformed {values : Table String} {text : String}
    {malformed : Geometry.Malformed} (htext : values.get? "size" = some text)
    (h : Geometry.parse text = .error malformed) : ¬ SizeReadable values := by
  intro hreadable
  obtain ⟨size, hsize⟩ := hreadable text htext
  rw [h] at hsize
  contradiction

namespace RunOptions

variable {σ ι : Type}

/-- Each setting as its flag gives it, else as its variable does, else by default. -/
def chosen (options : RunOptions) (values : Table String) : Settings where
  foreground := (options.foreground? <|> values.get? "foreground").getD "fg"
  background := (options.background? <|> values.get? "background").getD "bg"
  out := (options.out? <|> values.get? "output").getD "output.png"
  size? := options.size? <|> (values.get? "size").bind fun text => (Geometry.parse text).toOption

/-- Loads the images of a draft and renders it with these settings. -/
def renderUnder (settings : Settings) (b : Backend σ ι) (draft : Draft) (state : σ) :
    Except Failure (String × ℕ) × σ :=
  match (Scene.ofDraft b draft).perform state with
  | (.error fault, state') => (.error (.under "load script images" fault.chain), state')
  | (.ok scene, state') =>
    match (scene.render b settings).perform state' with
    | (.error fault, state'') => (.error (.ofChain fault.chain), state'')
    | (.ok stamps, state'') => (.ok (settings.out, stamps), state'')

/-- Loads the images of a draft and then refuses the text of its size. -/
def refuseSize (malformed : Geometry.Malformed) (b : Backend σ ι) (draft : Draft) (state : σ) :
    Except Failure (String × ℕ) × σ :=
  match (Scene.ofDraft b draft).perform state with
  | (.error fault, state') => (.error (.under "load script images" fault.chain), state')
  | (.ok _, state') => (.error ⟨s!"variable 'size': {malformed.message}", []⟩, state')

/-- The draft is rendered with the settings chosen, at least if none of them has to be
read from a text that holds no size. -/
def PrecedenceHolds (options : RunOptions) (draft : Draft) : Prop :=
  options.size?.isSome ∨ SizeReadable draft.variables →
    ∀ (σ ι : Type) (b : Backend σ ι) (state : σ),
      options.renderWith b draft state =
        renderUnder (options.chosen draft.variables) b draft state

/-- A flag is given for the setting of this variable. -/
def Overrides (options : RunOptions) (name : String) : Prop :=
  (name = "output" ∧ options.out?.isSome) ∨ (name = "foreground" ∧ options.foreground?.isSome) ∨
    (name = "background" ∧ options.background?.isSome) ∨ (name = "size" ∧ options.size?.isSome)

/-! ## One draft -/

theorem settle_of_sizeReadable (options : RunOptions) {s : Scene ι}
    (h : SizeReadable s.variables) :
    ∃ defaults, Settings.ofScene s = .ok defaults ∧
      options.settle defaults = options.chosen s.variables := by
  have hsetting (flag? value? : Option String) (default : String) :
      flag?.getD (value?.getD default) = (flag? <|> value?).getD default := by
    cases flag? <;> rfl
  rw [Settings.ofScene]
  cases htext : s.variables.get? "size" with
  | none => exact ⟨_, rfl, by simp only [settle, chosen, hsetting, htext]; rfl⟩
  | some text =>
    obtain ⟨size, hsize⟩ := h text htext
    simp only [hsize]
    refine ⟨_, rfl, ?_⟩
    simp only [settle, chosen, hsetting, htext, Option.bind_some, hsize]
    rfl

theorem ofScene_of_malformed {s : Scene ι} {text : String} {malformed : Geometry.Malformed}
    (htext : s.variables.get? "size" = some text) (h : Geometry.parse text = .error malformed) :
    Settings.ofScene s = .error (.other s!"variable 'size': {malformed.message}" []) := by
  simp only [Settings.ofScene, htext, h]

theorem renderWith_of_sizeReadable (options : RunOptions) {draft : Draft}
    (h : SizeReadable draft.variables) (b : Backend σ ι) (state : σ) :
    options.renderWith b draft state =
      renderUnder (options.chosen draft.variables) b draft state := by
  rw [renderWith, renderUnder]
  rcases hscene : (Scene.ofDraft b draft).perform state with ⟨fault | s, state'⟩
  · rfl
  · have hvariables := Scene.variables_of_ofDraft hscene
    rw [← hvariables] at h ⊢
    obtain ⟨defaults, hdefaults, hsettle⟩ := options.settle_of_sizeReadable h
    rcases hrender : (s.render b (options.chosen s.variables)).perform state' with
      ⟨fault | stamps, state''⟩
    · simp only [hdefaults, hsettle, hrender]
    · simp only [hdefaults, hsettle, hrender]

/-- A text that is no size is refused whatever the flags are. -/
theorem renderWith_of_malformed (options : RunOptions) {draft : Draft} {text : String}
    {malformed : Geometry.Malformed} (htext : draft.variables.get? "size" = some text)
    (h : Geometry.parse text = .error malformed) (b : Backend σ ι) (state : σ) :
    options.renderWith b draft state = refuseSize malformed b draft state := by
  rw [renderWith, refuseSize]
  rcases hscene : (Scene.ofDraft b draft).perform state with ⟨fault | s, state'⟩
  · rfl
  · rw [← Scene.variables_of_ofDraft hscene] at htext
    simp only [ofScene_of_malformed htext h]
    rfl

/-! ## A refusal is not a rendering -/

/-- A backend that does nothing and never fails. -/
def idle : Backend Unit Unit where
  load _ := pure ()
  composite _ _ _ _ := pure ()
  write _ _ := pure ()

theorem exists_loadAll_idle (loaded : Table Unit) (entries : List (String × String)) :
    ∃ images, (Scene.loadAll idle loaded entries).perform () = (.ok images, ()) := by
  induction entries generalizing loaded with
  | nil => exact ⟨loaded, rfl⟩
  | cons entry entries ih => exact ih (loaded.insert entry.1 ())

theorem exists_ofDraft_idle (d : Draft) :
    ∃ s, (Scene.ofDraft idle d).perform () = (.ok s, ()) := by
  obtain ⟨images, himages⟩ := exists_loadAll_idle ∅ d.images.entries
  rw [Scene.ofDraft, Effect.perform_bind_of_ok himages]
  cases d.initial? with
  | none => exact ⟨_, rfl⟩
  | some locator => exact ⟨_, rfl⟩

/-- With a backend that never fails, only an unknown image can stop a rendering. -/
theorem render_idle (s : Scene Unit) (settings : Settings) :
    (∃ stamps, (s.render idle settings).perform () = (.ok stamps, ())) ∨
      ∃ name, (s.render idle settings).perform () = (.error (.unknownImage name), ()) := by
  cases hforeground : s.images.get? settings.foreground with
  | none =>
    rw [Scene.render_of_unknown idle (Scene.imageNamed_of_none hforeground)]
    exact .inr ⟨_, rfl⟩
  | some foreground =>
    cases hbackground : s.initial?.or (s.images.get? settings.background) with
    | none =>
      rw [Scene.render_of_no_backdrop idle (Scene.imageNamed_of_some hforeground)
        (Scene.backdrop_of_none hbackground)]
      exact .inr ⟨_, rfl⟩
    | some background =>
      obtain ⟨images, states, -, -, hstamps⟩ :=
        Scene.makes_render idle () hforeground hbackground
      rcases hstamps with ⟨k, -, fault, state', -, hfails, -⟩ | ⟨-, result, state', hwrite, hmakes⟩
      · cases hfails
      · cases hwrite
        exact .inl ⟨_, hmakes.performs⟩

theorem unknownImage_message_ne (name : String) (malformed : Geometry.Malformed) :
    (Fault.unknownImage name).message ≠ s!"variable 'size': {malformed.message}" := by
  have hmessage : (Fault.unknownImage name).message = s!"unknown img: '{name}'" := rfl
  rw [hmessage]
  intro heq
  have hlist := congrArg String.toList heq
  simp only [toString, String.toList_append, List.append_assoc] at hlist
  have hfirst := congrArg List.head? hlist
  have hunknown : "unknown img: '".toList = 'u' :: "nknown img: '".toList := by decide
  have hvariable : "variable 'size': ".toList = 'v' :: "ariable 'size': ".toList := by decide
  rw [hunknown, hvariable, List.cons_append, List.cons_append, List.head?_cons,
    List.head?_cons] at hfirst
  simp at hfirst

/-- No rendering ends like the refusal of a text that holds no size. -/
theorem renderUnder_idle_ne (settings : Settings) (malformed : Geometry.Malformed)
    (draft draft' : Draft) :
    renderUnder settings idle draft () ≠ refuseSize malformed idle draft' () := by
  obtain ⟨s, hs⟩ := exists_ofDraft_idle draft
  obtain ⟨s', hs'⟩ := exists_ofDraft_idle draft'
  have hrefuse : refuseSize malformed idle draft' () =
      (.error ⟨s!"variable 'size': {malformed.message}", []⟩, ()) := by
    simp only [refuseSize, hs']
  rw [hrefuse]
  simp only [renderUnder, hs]
  rcases render_idle s settings with ⟨stamps, hrender⟩ | ⟨name, hrender⟩
  · simp [hrender]
  · simp only [hrender]
    intro heq
    have hmessage := congrArg Failure.message (Except.error.inj (Prod.mk.inj heq).1)
    exact unknownImage_message_ne name malformed hmessage

/-- Drafts that every backend renders in the same way both hold a readable size, or neither. -/
theorem sizeReadable_iff_of_renderWith {options : RunOptions} {d e : Draft}
    (h : options.renderWith idle d () = options.renderWith idle e ()) :
    SizeReadable d.variables ↔ SizeReadable e.variables := by
  have himp {d e : Draft} (h : options.renderWith idle d () = options.renderWith idle e ())
      (hd : SizeReadable d.variables) : SizeReadable e.variables := by
    by_contra he
    obtain ⟨text, malformed, htext, hmalformed⟩ := exists_malformed_of_not_sizeReadable he
    rw [options.renderWith_of_sizeReadable hd,
      options.renderWith_of_malformed htext hmalformed] at h
    exact renderUnder_idle_ne _ malformed d e h
  exact ⟨himp h, himp h.symm⟩

theorem precedenceHolds_iff {options : RunOptions} {draft : Draft} :
    options.PrecedenceHolds draft ↔
      (options.size?.isSome → SizeReadable draft.variables) := by
  constructor
  · intro h hflag
    by_contra hunreadable
    obtain ⟨text, malformed, htext, hmalformed⟩ :=
      exists_malformed_of_not_sizeReadable hunreadable
    have hrender := h (.inl hflag) Unit Unit idle ()
    rw [options.renderWith_of_malformed htext hmalformed] at hrender
    exact renderUnder_idle_ne _ malformed draft draft hrender.symm
  · intro h hread σ ι b state
    have hreadable : SizeReadable draft.variables := hread.elim h id
    exact options.renderWith_of_sizeReadable hreadable b state

/-! ## Two drafts -/

variable {name : String} {d e : Draft}

/-- A variable whose flag is given has no part in the choice. -/
theorem chosen_of_sameBut {options : RunOptions} (hflag : options.Overrides name)
    (h : d.SameBut name e) : options.chosen d.variables = options.chosen e.variables := by
  have hsetting {α : Type} (setting : String) (flag? : Option α) (read : String → Option α)
      (hsome : name = setting → flag?.isSome) :
      (flag? <|> (d.variables.get? setting).bind read) =
        (flag? <|> (e.variables.get? setting).bind read) := by
    by_cases hname : name = setting
    · obtain ⟨value, rfl⟩ := Option.isSome_iff_exists.mp (hsome hname)
      rfl
    · rw [h.values setting (Ne.symm hname)]
  have hforeground := hsetting "foreground" options.foreground? some fun hname => by
    simpa [Overrides, hname] using hflag
  have hbackground := hsetting "background" options.background? some fun hname => by
    simpa [Overrides, hname] using hflag
  have hout := hsetting "output" options.out? some fun hname => by
    simpa [Overrides, hname] using hflag
  have hsize := hsetting "size" options.size? (fun text => (Geometry.parse text).toOption)
    fun hname => by simpa [Overrides, hname] using hflag
  rw [Option.bind_fun_some, Option.bind_fun_some] at hforeground hbackground hout
  simp only [chosen, hforeground, hbackground, hout, hsize]

theorem renderUnder_of_sameBut (settings : Settings) (h : d.SameBut name e) (b : Backend σ ι)
    (state : σ) : renderUnder settings b d state = renderUnder settings b e state := by
  obtain ⟨loaded, state', hloaded⟩ := Scene.exists_perform_ofDraft b d state
  rw [renderUnder, renderUnder, hloaded d rfl rfl, hloaded e h.images.symm h.initial?.symm, h.axes]
  cases loaded <;> rfl

theorem refuseSize_of_sameBut (malformed : Geometry.Malformed) (h : d.SameBut name e)
    (b : Backend σ ι) (state : σ) :
    refuseSize malformed b d state = refuseSize malformed b e state := by
  obtain ⟨loaded, state', hloaded⟩ := Scene.exists_perform_ofDraft b d state
  rw [refuseSize, refuseSize, hloaded d rfl rfl, hloaded e h.images.symm h.initial?.symm]
  cases loaded <;> rfl

/-- A flag hides the value of its variable, but not a size text that is no size. -/
theorem renderWith_of_sameBut {options : RunOptions} (hflag : options.Overrides name)
    (h : d.SameBut name e)
    (hsize : name = "size" → SizeReadable d.variables ∧ SizeReadable e.variables)
    (b : Backend σ ι) (state : σ) :
    options.renderWith b d state = options.renderWith b e state := by
  by_cases hd : SizeReadable d.variables
  · have he : SizeReadable e.variables := by
      by_cases hname : name = "size"
      · exact (hsize hname).2
      · rwa [SizeReadable, ← h.values "size" (Ne.symm hname)]
    rw [options.renderWith_of_sizeReadable hd, options.renderWith_of_sizeReadable he,
      chosen_of_sameBut hflag h, renderUnder_of_sameBut _ h]
  · have hname : "size" ≠ name := fun hname => hd (hsize hname.symm).1
    obtain ⟨text, malformed, htext, hmalformed⟩ := exists_malformed_of_not_sizeReadable hd
    have htext' := htext
    rw [h.values "size" hname] at htext'
    rw [options.renderWith_of_malformed htext hmalformed,
      options.renderWith_of_malformed htext' hmalformed, refuseSize_of_sameBut _ h]

theorem render_of_sameBut {options : RunOptions} (hflag : options.Overrides name)
    (h : d.SameBut name e)
    (hsize : name = "size" → SizeReadable d.variables ∧ SizeReadable e.variables)
    (programs : Magick.Programs) (disk : Disk) :
    options.render programs d disk = options.render programs e disk := by
  simp only [render, renderWith_of_sameBut hflag h hsize]

/-! ## Two scripts -/

theorem draft_of_stdin {options : ScriptOptions} (h : options.script? = none)
    (stdin : List UInt8) (disk : Disk) :
    options.draft stdin disk =
      match Draft.ofStatements (Statement.all (Text.Utf8.decode stdin)) with
      | .error fault => .error (.under s!"parse script {options.sourceName}" fault.chain)
      | .ok draft => .ok draft := by
  have hread := Draft.ofSource_of_brings (Source.brings_ofOctets stdin)
  cases hdraft : Draft.ofStatements (Statement.all (Text.Utf8.decode stdin)) with
  | error fault =>
    simp only [ScriptOptions.draft, ScriptOptions.openScript, h, hread, hdraft]
  | ok draft =>
    simp only [ScriptOptions.draft, ScriptOptions.openScript, h, hread, hdraft]

/-- What a command leaves behind, with a text put before what it says of itself. -/
def telling (warned : String) (outcome : Outcome × Disk) : Outcome × Disk :=
  ({ outcome.1 with stderr := warned ++ outcome.1.stderr }, outcome.2)

theorem execute_of_draft {options : RunOptions} {stdin : List UInt8} {disk : Disk}
    (hd : options.draft stdin disk = .ok d) (programs : Magick.Programs) :
    options.execute programs stdin disk = telling (warnings options.sourceName d)
      (match options.render programs d disk with
        | (.error failure, disk') => ({ status := 1, stderr := failure.report }, disk')
        | (.ok (out, stamps), disk') =>
          ({ status := 0
             stderr := s!"wrote {out} ({Text.Numeral.decimal stamps} composites)\n" }, disk')) := by
  simp only [execute, hd]
  rcases options.render programs d disk with ⟨failure | ⟨out, stamps⟩, disk'⟩ <;> rfl

/-- Scripts that are the same but for assignments to a variable whose flag is given. -/
theorem execute_of_sameBut {options : RunOptions} (hscript : options.script? = none)
    (hflag : options.Overrides name) {stdin stdin' : List UInt8}
    (hstatements : SameButAssignments name (Statement.all (Text.Utf8.decode stdin))
      (Statement.all (Text.Utf8.decode stdin'))) (disk : Disk)
    (hd : options.draft stdin disk = .ok d) :
    ∃ e, options.draft stdin' disk = .ok e ∧ d.SameBut name e ∧
      ((name = "size" → SizeReadable d.variables ∧ SizeReadable e.variables) →
        ∀ programs, ∃ outcome,
          options.execute programs stdin disk =
            telling (warnings options.sourceName d) outcome ∧
          options.execute programs stdin' disk =
            telling (warnings options.sourceName e) outcome) := by
  have hfirst : Draft.ofStatements (Statement.all (Text.Utf8.decode stdin)) = .ok d := by
    rw [draft_of_stdin hscript] at hd
    cases hstated : Draft.ofStatements (Statement.all (Text.Utf8.decode stdin)) with
    | error fault => simp [hstated] at hd
    | ok draft => simpa [hstated] using hd
  obtain ⟨e, hsecond, hsame⟩ := Draft.exists_ofStatements_sameBut hstatements hfirst
  have he : options.draft stdin' disk = .ok e := by rw [draft_of_stdin hscript, hsecond]
  refine ⟨e, he, hsame, fun hsize programs => ⟨_, execute_of_draft hd programs, ?_⟩⟩
  rw [execute_of_draft he, render_of_sameBut hflag hsame hsize]

/-- Flags come before variables, and variables before defaults, exactly where a size flag
does not stand against a size variable that holds no size; that text is refused as soon
as the images are loaded, whatever the flags are. Apart from it, a flag hides its variable:
drafts that differ in that variable alone are rendered with the same requests, to the same
result and the same files, and so are the scripts that describe them. -/
theorem precedence (options : RunOptions) :
    (∀ draft, options.PrecedenceHolds draft ↔
      (options.size?.isSome → SizeReadable draft.variables)) ∧
    (∀ (draft : Draft) text malformed, draft.variables.get? "size" = some text →
      Geometry.parse text = .error malformed →
      ∀ (σ ι : Type) (b : Backend σ ι) (state : σ),
        options.renderWith b draft state = refuseSize malformed b draft state) ∧
    (∀ name (d e : Draft), options.Overrides name → d.SameBut name e →
      (name = "size" → SizeReadable d.variables ∧ SizeReadable e.variables) →
      (∀ (σ ι : Type) (b : Backend σ ι) (state : σ),
        options.renderWith b d state = options.renderWith b e state) ∧
      ∀ programs disk, options.render programs d disk = options.render programs e disk) ∧
    (∀ d e : Draft, (∀ (σ ι : Type) (b : Backend σ ι) (state : σ),
        options.renderWith b d state = options.renderWith b e state) →
      (SizeReadable d.variables ↔ SizeReadable e.variables)) ∧
    (options.script? = none → ∀ name stdin stdin' disk d, options.Overrides name →
      SameButAssignments name (Statement.all (Text.Utf8.decode stdin))
        (Statement.all (Text.Utf8.decode stdin')) →
      options.draft stdin disk = .ok d →
      ∃ e, options.draft stdin' disk = .ok e ∧ d.SameBut name e ∧
        ((name = "size" → SizeReadable d.variables ∧ SizeReadable e.variables) →
          ∀ programs, ∃ outcome,
            options.execute programs stdin disk =
              telling (warnings options.sourceName d) outcome ∧
            options.execute programs stdin' disk =
              telling (warnings options.sourceName e) outcome)) := by
  refine ⟨fun draft => precedenceHolds_iff, fun draft text malformed htext hmalformed => ?_,
    fun name d e hflag h hsize => ⟨fun σ ι b state => ?_, fun programs disk => ?_⟩,
    fun d e h => sizeReadable_iff_of_renderWith (h Unit Unit idle ()),
    fun hscript name stdin stdin' disk d hflag hstatements hd => ?_⟩
  · exact fun σ ι b state => options.renderWith_of_malformed htext hmalformed b state
  · exact renderWith_of_sameBut hflag h hsize b state
  · exact render_of_sameBut hflag h hsize programs disk
  · exact execute_of_sameBut hscript hflag hstatements disk hd

/-- Of two scripts that differ in the size variable alone, a size flag lets only the one
without it through. -/
theorem not_precedence_big :
    let options : RunOptions := { size? := some ⟨1, 1⟩ }
    let named : List Statement := [⟨2, "img", "fg fg.png"⟩, ⟨3, "img", "bg bg.png"⟩]
    let sized : List Statement := ⟨1, "var", "size=\"big\""⟩ :: named
    Statement.all "var size=\"big\"\nimg fg fg.png\nimg bg bg.png\n" = sized ∧
      Statement.all "\nimg fg fg.png\nimg bg bg.png\n" = named ∧
      ∃ d e, Draft.ofStatements sized = .ok d ∧ Draft.ofStatements named = .ok e ∧
        options.Overrides "size" ∧ d.SameBut "size" e ∧ ¬ options.PrecedenceHolds d ∧
        options.renderWith idle d () =
          (.error ⟨"variable 'size': expected WIDTHxHEIGHT, got 'big'", []⟩, ()) ∧
        options.renderWith idle e () = (.ok ("output.png", 1), ()) := by
  intro options named sized
  have hassigns : Statement.Assigns ⟨1, "var", "size=\"big\""⟩ "size" "big" :=
    ⟨rfl, Arguments.assignment?_eq_some_iff.mp (by decide)⟩
  have hstatements : SameButAssignments "size" sized named :=
    .left hassigns (.same rfl rfl (.same rfl rfl .nil))
  obtain ⟨d, hd, hbig⟩ :
      ∃ d, Draft.ofStatements sized = .ok d ∧ d.variables.get? "size" = some "big" :=
    ⟨_, rfl, rfl⟩
  obtain ⟨e, s, he, hunset, hs, hforeground, hbackdrop, haxes, hout⟩ :
      ∃ (e : Draft) (s : Scene Unit), Draft.ofStatements named = .ok e ∧
        e.variables.get? "size" = none ∧ (Scene.ofDraft idle e).perform () = (.ok s, ()) ∧
        s.imageNamed (options.chosen e.variables).foreground = .ok () ∧
        s.backdrop (options.chosen e.variables) = .ok () ∧ s.axes = [] ∧
        (options.chosen e.variables).out = "output.png" :=
    ⟨_, _, rfl, rfl, rfl, rfl, rfl, rfl, rfl⟩
  have hmalformed : Geometry.parse "big" = .error (.noSeparator "big") := rfl
  have hunreadable := not_sizeReadable_of_malformed hbig hmalformed
  have hreadable : SizeReadable e.variables := fun text htext => by
    cases hunset.symm.trans htext
  have hsame : d.SameBut "size" e := by
    obtain ⟨e', he', hsame⟩ := Draft.exists_ofStatements_sameBut hstatements hd
    obtain rfl := Except.ok.inj (he.symm.trans he')
    exact hsame
  refine ⟨by decide, by decide, d, e, hd, he, .inr (.inr (.inr ⟨rfl, rfl⟩)), hsame,
    fun h => hunreadable (precedenceHolds_iff.mp h rfl), ?_, ?_⟩
  · rw [renderWith_of_malformed options hbig hmalformed]
    obtain ⟨s, hs⟩ := exists_ofDraft_idle d
    simp only [refuseSize, hs]
    rfl
  · rw [renderWith_of_sizeReadable options hreadable]
    simp only [renderUnder, hs, hout, Scene.render_of_found idle hforeground hbackdrop, haxes]
    rfl

end RunOptions
end CommandLine
end StampGrid
