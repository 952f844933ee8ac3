import StampGrid.Backend.Painter
import StampGrid.Proofs.Disk.Folders
import StampGrid.Proofs.Render.Preparation
import StampGrid.Proofs.Render.Processes

/-!
# What backends do to the disk

Both backends load and stamp without a change to the disk. The painter keeps to it by
itself; the external program has to, and then its backend does. When they write, they
change the output and the folders that were missing for it.
-/
namespace StampGrid

variable {σ ι : Type}

namespace Backend

/-- Of the disk in its state the backend changes nothing when it loads and stamps, and
only the output and the folders for it when it writes. -/
structure IsConfined (b : Backend σ ι) (disk : σ → Disk) : Prop where
  load : ∀ locator state, disk ((b.load locator).perform state).2 = disk state
  composite : ∀ foreground background offset size? state,
    disk ((b.composite foreground background offset size?).perform state).2 = disk state
  write : ∀ image path state,
    (disk state).OnlyAlters (disk ((b.write image path).perform state).2) path

theorem Prepares.disk_eq {b : Backend σ ι} {disk : σ → Disk} (hb : b.IsConfined disk)
    {state state' : σ} (h : b.Prepares state state') : disk state' = disk state := by
  induction h with
  | refl => rfl
  | @load state₁ _ locator _ _ hload ih =>
    have hkept := hb.load locator state₁
    rw [hload] at hkept
    exact hkept.trans ih
  | @composite state₁ _ foreground background offset size? _ _ hcomposite ih =>
    have hkept := hb.composite foreground background offset size? state₁
    rw [hcomposite] at hkept
    exact hkept.trans ih

end Backend

theorem Painter.isConfined_backend (root : String) :
    (Painter.backend root).IsConfined fun d => d where
  load locator d := by
    unfold Effect.perform Painter.backend
    dsimp only
    split <;> rfl
  composite _ _ _ _ _ := rfl
  write image path d := by
    refine Disk.onlyAlters_of_ready fun name hname => ?_
    unfold Effect.perform Painter.backend at hname
    dsimp only at hname
    rcases hparent : d.ensureParent path with ⟨fault | _, ready⟩
    · rw [hparent] at hname
      exact absurd rfl hname
    · rw [hparent] at hname
      dsimp only at hname ⊢
      unfold encode at hname
      split at hname
      · next d' hencode =>
        split_ifs at hencode
        · cases hwrite : ready.writeFile path (.picture image) with
          | error refusal => simp [hwrite] at hencode
          | ok d'' =>
            obtain rfl : d'' = d' := by simpa [hwrite] using hencode
            exact Disk.leads_of_writeFile hwrite hname
        · split at hencode <;> contradiction
      · exact absurd rfl hname

namespace Magick

/-- The program writes at most its destination. It has one only if it is told an image
and a path; otherwise what it makes is printed. -/
def KeepsToDestination (behaviour : Program) : Prop :=
  ∀ args stdin (d : Disk) name,
    (behaviour args stdin d).2.entries.get? name ≠ d.entries.get? name →
      ∃ input path, args = [input, path] ∧ d.Leads path name

variable {programs : Programs} {program : String}
  (hprogram : ∀ behaviour, programs program = some behaviour → KeepsToDestination behaviour)
include hprogram

theorem leads_of_start {args : List String} {stdin : List UInt8} {session : Session}
    {name : String}
    (hname : (start programs program args stdin session).2.disk.entries.get? name ≠
      session.disk.entries.get? name) :
    ∃ input path, args = [input, path] ∧ session.disk.Leads path name := by
  let i : Invocation := ⟨program, args, stdin⟩
  by_cases hstartable : ∃ behaviour, Startable programs i behaviour
  · obtain ⟨behaviour, h⟩ := hstartable
    rw [start_of_startable i session h] at hname
    exact hprogram behaviour h.found args stdin session.disk name hname
  · obtain ⟨reason, hreason⟩ := start_of_not_startable session (not_exists.mp hstartable)
    rw [hreason] at hname
    exact absurd rfl hname

/-- A process without a destination leaves the disk as it was. -/
theorem disk_of_start {args : List String} (hargs : ∀ input path, args ≠ [input, path])
    (stdin : List UInt8) (session : Session) :
    (start programs program args stdin session).2.disk = session.disk := by
  refine Disk.ext_get? fun name => ?_
  by_contra hname
  obtain ⟨input, path, heq, -⟩ := leads_of_start hprogram hname
  exact hargs input path heq

omit hprogram in
theorem session_of_isAvailable (session : Session) :
    (isAvailable programs program session).2 =
      (start programs program ["-version"] [] session).2 := by
  unfold isAvailable
  split <;> next heq => rw [heq]

omit hprogram in
/-- What comes of a process is taken from it, and changes nothing more. -/
theorem session_of_run_bind {α : Type} (args : List String) (inputs : List Image)
    (value : List UInt8 → α) (session : Session) :
    ((run programs program args inputs >>= fun printed => pure (value printed)).perform
      session).2 = (start programs program args (stdinOf inputs) session).2 := by
  have hrun : ((run programs program args inputs).perform session).2 =
      (start programs program args (stdinOf inputs) session).2 := by
    unfold Effect.perform run
    split
    · next heq => rw [heq]
    · next heq =>
      rw [heq]
      split <;> rfl
  rw [← hrun, Effect.perform_bind]
  split <;> next heq => rw [heq] <;> rfl

theorem isConfined_backend : (backend programs program).IsConfined Session.disk where
  load _ _ := rfl
  composite foreground background offset size? session := by
    have hsession : ((((backend programs program).composite foreground background offset
        size?).perform session).2) = (start programs program
          (compositeArgs foreground background offset size? interchange)
          (stdinOf [foreground, background]) session).2 :=
      session_of_run_bind _ _ (Image.ofBuffer interchange) session
    rw [hsession]
    exact disk_of_start hprogram (by simp [compositeArgs]) _ session
  write image path session := by
    refine Disk.onlyAlters_of_ready fun name hname => ?_
    rcases hparent : session.disk.ensureParent path with ⟨fault | _, ready⟩
    · simp only [Effect.perform, backend, hparent] at hname
      exact absurd rfl hname
    · have hsession : (((backend programs program).write image path).perform session).2 =
          (start programs program [image.name, path] (stdinOf [image])
            { session with disk := ready }).2 := by
        rw [← session_of_run_bind [image.name, path] [image] fun _ => ()]
        simp only [Effect.perform, backend, hparent]
      rw [hparent, hsession] at hname
      obtain ⟨_, path', heq, hleads⟩ := leads_of_start hprogram hname
      obtain rfl : path = path' := by simpa using congrArg List.getLast? heq
      exact hleads

end Magick
end StampGrid
