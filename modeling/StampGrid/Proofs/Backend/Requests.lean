import StampGrid.Backend
import Mathlib.Tactic

/-!
# The requests that an act makes

An act that works through a backend is observed from outside by its result, the
state that it leaves, and the requests that it makes on the way. `Makes` says all
three at once, for the backend as it is and for the one that keeps a record. Acts
in a row make their requests in a row, and a failure ends the row.
-/
namespace StampGrid

namespace Effect

variable {σ α β : Type}

theorem perform_bind (act : Effect σ α) (next : α → Effect σ β) (state : σ) :
    (act >>= next).perform state = match act.perform state with
      | (.ok value, state') => (next value).perform state'
      | (.error fault, state') => (.error fault, state') := by
  change ExceptT.bindCont next (act state).1 (act state).2 = _
  unfold perform
  rcases act state with ⟨fault | value, state'⟩ <;> rfl

@[simp] theorem perform_pure (value : α) (state : σ) :
    (pure value : Effect σ α).perform state = (.ok value, state) := rfl

@[simp] theorem perform_ofExcept (result : Except Fault α) (state : σ) :
    (ofExcept result).perform state = (result, state) := rfl

theorem perform_bind_of_ok {act : Effect σ α} {next : α → Effect σ β} {state state' : σ}
    {value : α} (h : act.perform state = (.ok value, state')) :
    (act >>= next).perform state = (next value).perform state' := by
  rw [perform_bind, h]

theorem perform_bind_of_error {act : Effect σ α} {next : α → Effect σ β} {state state' : σ}
    {fault : Fault} (h : act.perform state = (.error fault, state')) :
    (act >>= next).perform state = (.error fault, state') := by
  rw [perform_bind, h]

end Effect

namespace Backend

variable {σ ι α β : Type}

/-- The act, done through the backend from `state`, ends with the result in `state'`
and makes exactly these requests, in this order. Keeping a record of the requests
changes nothing else. -/
structure Makes (b : Backend σ ι) (act : (τ : Type) → Backend τ ι → Effect τ α) (state : σ)
    (result : Except Fault α) (state' : σ) (requests : List (Call ι)) : Prop where
  performs : (act σ b).perform state = (result, state')
  records : ∀ calls, (act (σ × Array (Call ι)) b.recording).perform (state, calls) =
    (result, (state', calls ++ requests.toArray))

variable {b : Backend σ ι} {state state' state'' : σ}

theorem makes_pure (value : α) : b.Makes (fun _ _ => pure value) state (.ok value) state [] :=
  ⟨rfl, fun calls => by simp⟩

theorem makes_ofExcept (result : Except Fault α) :
    b.Makes (fun _ _ => Effect.ofExcept result) state result state [] :=
  ⟨rfl, fun calls => by simp⟩

theorem makes_load {locator : String} {result : Except Fault ι}
    (h : (b.load locator).perform state = (result, state')) :
    b.Makes (fun _ b => b.load locator) state result state' [.load locator] := by
  refine ⟨h, fun calls => ?_⟩
  simp only [Effect.perform, recording, entering] at h ⊢
  simp [h]

theorem makes_composite {foreground background : ι} {offset : Offset} {size? : Option Geometry}
    {result : Except Fault ι}
    (h : (b.composite foreground background offset size?).perform state = (result, state')) :
    b.Makes (fun _ b => b.composite foreground background offset size?) state result state'
      [.composite foreground background offset size?] := by
  refine ⟨h, fun calls => ?_⟩
  simp only [Effect.perform, recording, entering] at h ⊢
  simp [h]

theorem makes_write {image : ι} {path : String} {result : Except Fault Unit}
    (h : (b.write image path).perform state = (result, state')) :
    b.Makes (fun _ b => b.write image path) state result state' [.write image path] := by
  refine ⟨h, fun calls => ?_⟩
  simp only [Effect.perform, recording, entering] at h ⊢
  simp [h]

variable {act : (τ : Type) → Backend τ ι → Effect τ α} {requests requests' : List (Call ι)}

/-- An act done from a state ends in one way. -/
theorem Makes.unique {result result' : Except Fault α}
    (h : b.Makes act state result state' requests)
    (h' : b.Makes act state result' state'' requests') :
    result = result' ∧ state' = state'' ∧ requests = requests' := by
  have heq := (h.records #[]).symm.trans (h'.records #[])
  simpa using heq

/-- The requests of an act are followed by those of the act that its value leads to. -/
theorem Makes.bind {value : α} {result : Except Fault β}
    (h : b.Makes act state (.ok value) state' requests)
    (next : (τ : Type) → Backend τ ι → α → Effect τ β)
    (hnext : b.Makes (fun τ b => next τ b value) state' result state'' requests') :
    b.Makes (fun τ b => act τ b >>= next τ b) state result state'' (requests ++ requests') := by
  refine ⟨?_, fun calls => ?_⟩
  · rw [Effect.perform_bind_of_ok h.performs, hnext.performs]
  · rw [Effect.perform_bind_of_ok (h.records calls), hnext.records]
    simp [Array.append_assoc]

/-- Behind a failure no further request is made. -/
theorem Makes.bind_error {fault : Fault} (h : b.Makes act state (.error fault) state' requests)
    (next : (τ : Type) → Backend τ ι → α → Effect τ β) :
    b.Makes (fun τ b => act τ b >>= next τ b) state (.error fault) state' requests :=
  ⟨Effect.perform_bind_of_error h.performs, fun calls =>
    Effect.perform_bind_of_error (h.records calls)⟩

end Backend
end StampGrid
