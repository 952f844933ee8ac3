import StampGrid.Backend.Magick
import StampGrid.Proofs.Disk.Folders
import StampGrid.Proofs.Render.Calls
import StampGrid.Proofs.Table

/-!
# The processes that rendering starts

With the external program rendering is a row of processes. The first stamps on a file;
every further one stamps on what the one before it has printed, which it finds on its
standard input under a name that says so. What the last one has printed is handed in
the same way to the process that writes the result. A process that fails or cannot be
started is the last.
-/
namespace StampGrid

namespace Scene

/-- Where loading always gives an image, all images of a draft are loaded. -/
theorem ofDraft_of_load_pure {σ ι : Type} (b : Backend σ ι) (image : String → ι)
    (hload : ∀ locator, b.load locator = pure (image locator)) (d : Draft) :
    ∃ s : Scene ι, ofDraft b d = pure s ∧ s.axes = d.axes ∧
      s.initial? = d.initial?.map image ∧
      ∀ name, s.images.get? name = (d.images.get? name).map image := by
  have hall (loaded : Table ι) (entries : List (String × String)) :
      loadAll b loaded entries =
        pure (entries.foldl (fun t e => t.insert e.1 (image e.2)) loaded) := by
    induction entries generalizing loaded with
    | nil => rfl
    | cons e entries ih =>
      rw [loadAll, hload, pure_bind, ih]
      rfl
  let images := d.images.entries.foldl (fun t e => t.insert e.1 (image e.2)) (∅ : Table ι)
  refine ⟨⟨d.variables, images, d.initial?.map image, d.axes⟩, ?_, rfl, rfl, fun name => ?_⟩
  · rw [ofDraft, hall, pure_bind]
    cases d.initial? with
    | none => rfl
    | some locator =>
      simp only [hload, pure_bind]
      rfl
  · rw [Table.get?_foldl_insert image d.images.names_ne, Table.get?_empty, Option.or_none,
      Table.get?, Option.map_map]
    rfl

end Scene

namespace Magick
open Axis

/-- A process of this kind can be started, and this is what it does. -/
structure Startable (programs : Programs) (i : Invocation) (behaviour : Program) : Prop where
  found : programs i.program = some behaviour
  plain : ∀ word ∈ i.program :: i.args, '\x00' ∉ word.toList
  short : ∀ word ∈ i.args, word.utf8ByteSize < wordLimit

/-- The process is started on a disk, prints this and ends with success. -/
def Prints (programs : Programs) (i : Invocation) (disk : Disk) (printed : List UInt8)
    (disk' : Disk) : Prop :=
  ∃ behaviour stderr, Startable programs i behaviour ∧
    behaviour i.args i.stdin disk = (⟨.exit 0, printed, stderr⟩, disk')

/-- The process is started but does not end with success, or it cannot be started. -/
inductive Fails (programs : Programs) (i : Invocation) (disk : Disk) :
    (begun : List Invocation) → Disk → Prop
  | ended {behaviour : Program} {finished : Finished} {disk' : Disk}
      (h : Startable programs i behaviour)
      (hends : behaviour i.args i.stdin disk = (finished, disk'))
      (hstatus : finished.status ≠ .exit 0) : Fails programs i disk [i] disk'
  | unstarted (h : ∀ behaviour, ¬ Startable programs i behaviour) : Fails programs i disk [] disk

variable {programs : Programs} {program : String}

theorem start_of_startable (i : Invocation) {behaviour : Program} (session : Session)
    (h : Startable programs i behaviour) :
    start programs i.program i.args i.stdin session =
      (.ok (behaviour i.args i.stdin session.disk).1,
        ⟨(behaviour i.args i.stdin session.disk).2, session.started.push i⟩) := by
  have hplain : ((i.program :: i.args).any fun word => word.toList.contains '\x00') = false := by
    simpa using h.plain
  have hshort : (i.args.any fun word => decide (wordLimit ≤ word.utf8ByteSize)) = false := by
    simpa using h.short
  simp only [start, hplain, h.found, hshort]
  rfl

theorem start_of_not_startable {i : Invocation} (session : Session)
    (h : ∀ behaviour, ¬ Startable programs i behaviour) :
    ∃ reason, start programs i.program i.args i.stdin session = (.error reason, session) := by
  rw [start]
  split
  · exact ⟨_, rfl⟩
  · next hplain =>
    split
    · exact ⟨_, rfl⟩
    · next behaviour hfound =>
      split
      · exact ⟨_, rfl⟩
      · next hshort =>
        exact absurd ⟨hfound, by simpa using hplain, by simpa using hshort⟩ (h behaviour)

/-- Running the program on images starts one process, which prints or fails. -/
theorem run_prints_or_fails (programs : Programs) (program : String) (args : List String)
    (inputs : List Image) (session : Session) :
    let i : Invocation := ⟨program, args, stdinOf inputs⟩
    (∃ printed disk, Prints programs i session.disk printed disk ∧
        (run programs program args inputs).perform session =
          (.ok printed, ⟨disk, session.started.push i⟩)) ∨
      ∃ begun disk reason, Fails programs i session.disk begun disk ∧
        (run programs program args inputs).perform session =
          (.error (.tool reason), ⟨disk, session.started ++ begun.toArray⟩) := by
  intro i
  rw [Effect.perform, run]
  by_cases hstartable : ∃ behaviour, Startable programs i behaviour
  · obtain ⟨behaviour, h⟩ := hstartable
    rw [start_of_startable i session h]
    rcases hends : behaviour i.args i.stdin session.disk with ⟨⟨status, printed, stderr⟩, disk⟩
    by_cases hstatus : status = .exit 0
    · subst hstatus
      exact .inl ⟨printed, disk, ⟨behaviour, stderr, h, hends⟩, rfl⟩
    · have hfailure : status.isSuccess = false := by simpa [Status.isSuccess] using hstatus
      refine .inr ⟨[i], disk, ?_⟩
      simp only [hfailure]
      exact ⟨_, .ended h hends hstatus, rfl⟩
  · have hnone : ∀ behaviour, ¬ Startable programs i behaviour := not_exists.mp hstartable
    obtain ⟨reason, hreason⟩ := start_of_not_startable session hnone
    rw [hreason]
    exact .inr ⟨[], session.disk, _, .unstarted hnone, rfl⟩

/-- A stamp is made by one process, and is what that prints. -/
theorem stamp_prints_or_fails {settings : Settings} {c : Coordinate} {foreground image : Image}
    {session session' : Session} {result : Except Fault Image}
    (h : Scene.StampGives (backend programs program) settings foreground c image session result
      session') :
    let i : Invocation := ⟨program,
      compositeArgs foreground image (settings.offset c) settings.size? interchange,
      stdinOf [foreground, image]⟩
    (∃ printed, result = .ok (.ofBuffer interchange printed) ∧
        Prints programs i session.disk printed session'.disk ∧
        session'.started = session.started.push i) ∨
      ∃ begun reason, result = .error (.tool reason) ∧
        Fails programs i session.disk begun session'.disk ∧
        session'.started = session.started ++ begun.toArray := by
  intro i
  rcases run_prints_or_fails programs program i.args [foreground, image] session with
    ⟨printed, disk, hprints, hrun⟩ | ⟨begun, disk, reason, hfails, hrun⟩
  · obtain ⟨rfl, rfl⟩ := Prod.mk.inj (h.symm.trans (Effect.perform_bind_of_ok hrun))
    exact .inl ⟨printed, rfl, hprints, rfl⟩
  · obtain ⟨rfl, rfl⟩ := Prod.mk.inj (h.symm.trans (Effect.perform_bind_of_error hrun))
    exact .inr ⟨begun, reason, rfl, hfails, rfl⟩

/-! ## The chain of processes -/

/-- The image that is handed to process `k`: a file to the first, and to the others what
the one before has printed. -/
def handed (locator : String) (printed : ℕ → List UInt8) : ℕ → Image
  | 0 => .ofFile locator
  | k + 1 => .ofBuffer interchange (printed k)

/-- Process `k`, which makes the stamp of coordinate `k`. -/
def stampProcess (program : String) (settings : Settings) (axes : List Axis)
    (foreground locator : String) (printed : ℕ → List UInt8) (k : ℕ) : Invocation where
  program := program
  args := ["composite", "-geometry",
    Geometry.argument (settings.offset (coordinate axes k)) settings.size?, foreground,
    Scene.inFront locator (fun _ => "miff:-") k, "miff:-"]
  stdin := Scene.inFront [] printed k

/-- The process that writes the result of the first `n`. -/
def writeProcess (program : String) (settings : Settings) (locator : String)
    (printed : ℕ → List UInt8) (n : ℕ) : Invocation where
  program := program
  args := [Scene.inFront locator (fun _ => "miff:-") n, settings.out]
  stdin := Scene.inFront [] printed n

/-- The foreground is a file, so nothing of it is handed to a process. -/
theorem stampProcess_eq (settings : Settings) (axes : List Axis) (foreground locator : String)
    (printed : ℕ → List UInt8) (k : ℕ) :
    stampProcess program settings axes foreground locator printed k =
      ⟨program, compositeArgs (.ofFile foreground) (handed locator printed k)
        (settings.offset (coordinate axes k)) settings.size? interchange,
        stdinOf [.ofFile foreground, handed locator printed k]⟩ := by
  cases k with
  | zero => rfl
  | succ k =>
    have hstdin : stdinOf [.ofFile foreground, handed locator printed (k + 1)] = printed k :=
      List.append_nil _
    rw [hstdin]
    rfl

theorem writeProcess_eq (settings : Settings) (locator : String) (printed : ℕ → List UInt8)
    (n : ℕ) : writeProcess program settings locator printed n =
      ⟨program, [(handed locator printed n).name, settings.out],
        stdinOf [handed locator printed n]⟩ := by
  cases n with
  | zero => rfl
  | succ n =>
    have hstdin : stdinOf [handed locator printed (n + 1)] = printed n := List.append_nil _
    rw [hstdin]
    rfl

section Chain

variable {settings : Settings} {axes : List Axis} {foreground locator : String}
  {images : ℕ → Image} {sessions : ℕ → Session} {n : ℕ}

/-- What the stamps have printed. -/
def printedBy (images : ℕ → Image) (k : ℕ) : List UInt8 := (images (k + 1)).content

/-- Every stamp that succeeds hands on what its process printed. -/
theorem images_eq_handed
    (h : Scene.Stamped (backend programs program) settings (.ofFile foreground) (coordinate axes)
      images sessions n) (hzero : images 0 = .ofFile locator) {k : ℕ} (hk : k ≤ n) :
    images k = handed locator (printedBy images) k := by
  cases k with
  | zero => exact hzero
  | succ k =>
    rcases stamp_prints_or_fails (h k hk) with ⟨printed, himage, -⟩ | ⟨begun, reason, hfault, -⟩
    · rw [handed, printedBy, Except.ok.inj himage]
      rfl
    · cases hfault

theorem prints_of_stamped
    (h : Scene.Stamped (backend programs program) settings (.ofFile foreground) (coordinate axes)
      images sessions n) (hzero : images 0 = .ofFile locator) {k : ℕ} (hk : k < n) :
    let process := stampProcess program settings axes foreground locator (printedBy images) k
    Prints programs process (sessions k).disk (printedBy images k) (sessions (k + 1)).disk ∧
      (sessions (k + 1)).started = (sessions k).started.push process := by
  rw [stampProcess_eq, ← images_eq_handed h hzero hk.le]
  rcases stamp_prints_or_fails (h k hk) with
    ⟨printed, himage, hprints, hstarted⟩ | ⟨begun, reason, hfault, -⟩
  · have hprinted : printedBy images k = printed := by rw [printedBy, Except.ok.inj himage]; rfl
    rw [hprinted]
    exact ⟨hprints, hstarted⟩
  · cases hfault

theorem started_of_stamped
    (h : Scene.Stamped (backend programs program) settings (.ofFile foreground) (coordinate axes)
      images sessions n) (hzero : images 0 = .ofFile locator) {k : ℕ} (hk : k ≤ n) :
    (sessions k).started = (sessions 0).started ++ ((List.range k).map
      (stampProcess program settings axes foreground locator (printedBy images))).toArray := by
  induction k with
  | zero => simp
  | succ k ih =>
    rw [(prints_of_stamped h hzero hk).2, ih (Nat.le_of_succ_le hk), List.range_succ,
      List.map_append]
    simp

theorem started_append
    (h : Scene.Stamped (backend programs program) settings (.ofFile foreground) (coordinate axes)
      images sessions n) (hzero : images 0 = .ofFile locator) {k : ℕ} (hk : k ≤ n)
    (more : List Invocation) :
    (sessions k).started ++ more.toArray =
      (sessions 0).started ++ ((List.range k).map
        (stampProcess program settings axes foreground locator (printedBy images)) ++
          more).toArray := by
  rw [started_of_stamped h hzero hk]
  simp

end Chain

/-- Writing runs one process, once the folder of the path is there. -/
theorem write_prints_or_fails (programs : Programs) (program : String) (image : Image)
    (path : String) (session : Session) :
    let i : Invocation := ⟨program, [image.name, path], stdinOf [image]⟩
    let writing := ((backend programs program).write image path).perform session
    (∃ fault disk, session.disk.ensureParent path = (.error fault, disk) ∧
        writing = (.error fault, ⟨disk, session.started⟩)) ∨
      ∃ disk, session.disk.ensureParent path = (.ok (), disk) ∧
        ((∃ printed disk', Prints programs i disk printed disk' ∧
            writing = (.ok (), ⟨disk', session.started.push i⟩)) ∨
          ∃ begun disk' reason, Fails programs i disk begun disk' ∧
            writing = (.error (.tool reason), ⟨disk', session.started ++ begun.toArray⟩)) := by
  intro i writing
  rcases hparent : session.disk.ensureParent path with ⟨fault | _, disk⟩
  · refine .inl ⟨fault, disk, rfl, ?_⟩
    simp only [writing, Effect.perform, backend, hparent]
  · refine .inr ⟨disk, rfl, ?_⟩
    have hwriting : writing = (run programs program [image.name, path] [image] >>= fun _ =>
        pure ()).perform { session with disk } := by
      simp only [writing, Effect.perform, backend, hparent]
    rw [hwriting]
    rcases run_prints_or_fails programs program [image.name, path] [image]
        { session with disk } with
      ⟨printed, disk', hprints, hrun⟩ | ⟨begun, disk', reason, hfails, hrun⟩
    · exact .inl ⟨printed, disk', hprints, Effect.perform_bind_of_ok hrun⟩
    · exact .inr ⟨begun, disk', reason, hfails, Effect.perform_bind_of_error hrun⟩

/-- Rendering with the external program. Loading a draft starts nothing and always
succeeds. Unknown images are refused without a process. Otherwise there is one process for
each coordinate, in order, at its values on the two axes of the settings: the first finds
its background in a file, the others what the one before has printed, and the foreground is
never handed over. When all have succeeded and the folder of the output has been made, one
more is started on a disk where it is a folder, and writes what the last has printed. The
first process that fails or cannot be started ends all with the failure of a tool. -/
theorem render_processes (programs : Programs) (program : String) (d : Draft)
    (settings : Settings) (session : Session) :
    (∀ k o, settings.Places d.axes k o ↔ settings.offset (coordinate d.axes k) = o) ∧
    ∃ s, (Scene.ofDraft (backend programs program) d).perform session = (.ok s, session) ∧
      let rendered := (s.render (backend programs program) settings).perform session
      let n := gridSize d.axes
      (d.images.get? settings.foreground = none →
        rendered = (.error (.unknownImage settings.foreground), session)) ∧
      (d.images.get? settings.foreground ≠ none →
        d.initial?.or (d.images.get? settings.background) = none →
        rendered = (.error (.unknownImage settings.background), session)) ∧
      ∀ foreground locator, d.images.get? settings.foreground = some foreground →
        d.initial?.or (d.images.get? settings.background) = some locator →
        ∃ (printed : ℕ → List UInt8) (disks : ℕ → Disk), disks 0 = session.disk ∧
          let process := stampProcess program settings d.axes foreground locator printed
          let begunBy (m : ℕ) (more : List Invocation) :=
            session.started ++ ((List.range m).map process ++ more).toArray
          ((∃ k < n,
              (∀ j < k, Prints programs (process j) (disks j) (printed j) (disks (j + 1))) ∧
              ∃ more disk reason, Fails programs (process k) (disks k) more disk ∧
                rendered = (.error (.tool reason), ⟨disk, begunBy k more⟩)) ∨
            (∀ j < n, Prints programs (process j) (disks j) (printed j) (disks (j + 1))) ∧
              ((∃ fault disk, (disks n).ensureParent settings.out = (.error fault, disk) ∧
                  rendered = (.error fault, ⟨disk, begunBy n []⟩)) ∨
                ∃ disk, (disks n).ensureParent settings.out = (.ok (), disk) ∧
                  (∀ parent ∈ Path.parent? settings.out, parent ≠ "" → disk.isFolder parent) ∧
                  let last := writeProcess program settings locator printed n
                  ((∃ output disk', Prints programs last disk output disk' ∧
                      rendered = (.ok n, ⟨disk', begunBy n [last]⟩)) ∨
                    ∃ more disk' reason, Fails programs last disk more disk' ∧
                      rendered = (.error (.tool reason), ⟨disk', begunBy n more⟩)))) := by
  obtain ⟨s, hbuilt, haxes, hinitial, himages⟩ :=
    Scene.ofDraft_of_load_pure (backend programs program) Image.ofFile (fun _ => rfl) d
  have hbackdrop (name : String) : s.initial?.or (s.images.get? name) =
      (d.initial?.or (d.images.get? name)).map Image.ofFile := by
    rw [hinitial, himages, Option.map_or]
  refine ⟨fun _ _ => Settings.places_iff, s, by rw [hbuilt]; rfl, fun hnone => ?_,
    fun hsome hnone => ?_, ?_⟩
  · rw [Scene.render_of_unknown _ (Scene.imageNamed_of_none (by rw [himages, hnone]; rfl))]
    rfl
  · obtain ⟨foreground, hforeground⟩ := Option.ne_none_iff_exists'.mp hsome
    rw [Scene.render_of_no_backdrop _
      (Scene.imageNamed_of_some (by rw [himages, hforeground]; rfl))
      (Scene.backdrop_of_none (by rw [hbackdrop, hnone]; rfl))]
    rfl
  intro foreground locator hforeground hlocator
  have hstamp : s.images.get? settings.foreground = some (.ofFile foreground) := by
    rw [himages, hforeground]
    rfl
  have hstart : s.initial?.or (s.images.get? settings.background) = some (.ofFile locator) := by
    rw [hbackdrop, hlocator]
    rfl
  obtain ⟨images, sessions, hzero, rfl, hrender⟩ :=
    Scene.makes_render (backend programs program) session hstamp hstart
  rw [haxes] at hrender
  refine ⟨printedBy images, fun k => (sessions k).disk, rfl, ?_⟩
  rcases hrender with ⟨k, hk, fault, session', hstamped, hgives, hmakes⟩ |
    ⟨hstamped, result, session', hwrite, hmakes⟩
  · refine .inl ⟨k, hk, fun j hj => (prints_of_stamped hstamped hzero hj).1, ?_⟩
    rw [images_eq_handed hstamped hzero le_rfl] at hgives
    rcases stamp_prints_or_fails hgives with ⟨printed, himage, -⟩ |
      ⟨more, reason, hfault, hfails, hstarted⟩
    · cases himage
    · rw [← stampProcess_eq] at hfails
      refine ⟨more, session'.disk, reason, hfails, ?_⟩
      simp only [hmakes.performs, Except.error.inj hfault,
        ← started_append hstamped hzero le_rfl, ← hstarted]
  · refine .inr ⟨fun j hj => (prints_of_stamped hstamped hzero hj).1, ?_⟩
    have hbegun := started_append hstamped hzero le_rfl
    rw [images_eq_handed hstamped hzero le_rfl] at hwrite
    rw [hmakes.performs, writeProcess_eq]
    rcases write_prints_or_fails programs program
        (handed locator (printedBy images) (gridSize d.axes)) settings.out
        (sessions (gridSize d.axes)) with
      ⟨fault, disk, hparent, hwriting⟩ | ⟨disk, hparent, hwriting⟩
    · obtain ⟨rfl, rfl⟩ := Prod.mk.inj (hwrite.symm.trans hwriting)
      refine .inl ⟨fault, disk, hparent, ?_⟩
      simp only [← hbegun]
      simp [Except.map]
    · refine .inr ⟨disk, hparent, fun _ => Disk.isFolder_of_ensureParent hparent, ?_⟩
      rcases hwriting with ⟨output, disk', hprints, hwriting⟩ |
        ⟨more, disk', reason, hfails, hwriting⟩
      · obtain ⟨rfl, rfl⟩ := Prod.mk.inj (hwrite.symm.trans hwriting)
        refine .inl ⟨output, disk', hprints, ?_⟩
        simp only [← hbegun]
        simp [Except.map]
      · obtain ⟨rfl, rfl⟩ := Prod.mk.inj (hwrite.symm.trans hwriting)
        refine .inr ⟨more, disk', reason, hfails, ?_⟩
        simp only [← hbegun]
        rfl

end Magick
end StampGrid
