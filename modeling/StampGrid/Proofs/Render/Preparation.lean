import StampGrid.Proofs.Render.Calls

/-!
# What comes before the writing

Loading and stamping prepare what is written. Rendering either stops while it prepares,
for one of the reasons listed here, and asks for no writing, or it gets through and the
writing is its last request.
-/
namespace StampGrid

variable {σ ι : Type}

namespace Backend

/-- The second state is reached from the first by loading and stamping alone. -/
inductive Prepares (b : Backend σ ι) (state : σ) : σ → Prop
  | refl : Prepares b state state
  | load {state' state'' : σ} {locator : String} {result : Except Fault ι}
      (h : Prepares b state state') (hload : (b.load locator).perform state' = (result, state'')) :
      Prepares b state state''
  | composite {state' state'' : σ} {foreground background : ι} {offset : Offset}
      {size? : Option Geometry} {result : Except Fault ι} (h : Prepares b state state')
      (hcomposite : (b.composite foreground background offset size?).perform state' =
        (result, state'')) :
      Prepares b state state''

variable {b : Backend σ ι} {state state' state'' : σ}

theorem Prepares.trans (h : b.Prepares state state') (h' : b.Prepares state' state'') :
    b.Prepares state state'' := by
  induction h' with
  | refl => exact h
  | load _ hload ih => exact ih.load hload
  | composite _ hcomposite ih => exact ih.composite hcomposite

variable {α β : Type} {act : (τ : Type) → Backend τ ι → Effect τ α}

/-- From this state the act asks for nothing but images, whatever comes of it. -/
def OnlyLoads (b : Backend σ ι) (act : (τ : Type) → Backend τ ι → Effect τ α) (state : σ) : Prop :=
  ∃ (result : Except Fault α) (state' : σ) (locators : List String),
    b.Makes act state result state' (locators.map .load) ∧ b.Prepares state state'

theorem onlyLoads_pure (b : Backend σ ι) (value : α) (state : σ) :
    b.OnlyLoads (fun _ _ => pure value) state :=
  ⟨.ok value, state, [], makes_pure value, .refl⟩

theorem onlyLoads_load (b : Backend σ ι) (locator : String) (state : σ) :
    b.OnlyLoads (fun _ b => b.load locator) state := by
  rcases hload : (b.load locator).perform state with ⟨result, state'⟩
  exact ⟨result, state', [locator], makes_load hload, Prepares.refl.load hload⟩

theorem OnlyLoads.bind (h : b.OnlyLoads act state)
    (next : (τ : Type) → Backend τ ι → α → Effect τ β)
    (hnext : ∀ value state, b.OnlyLoads (fun τ b => next τ b value) state) :
    b.OnlyLoads (fun τ b => act τ b >>= next τ b) state := by
  obtain ⟨result, state₁, locators, hmakes, hprepares⟩ := h
  cases result with
  | error fault => exact ⟨.error fault, state₁, locators, hmakes.bind_error next, hprepares⟩
  | ok value =>
    obtain ⟨result, state₂, more, hmore, hprepares'⟩ := hnext value state₁
    refine ⟨result, state₂, locators ++ more, ?_, hprepares.trans hprepares'⟩
    rw [List.map_append]
    exact hmakes.bind next hmore

end Backend

namespace Scene
open Axis Backend

variable {b : Backend σ ι} {settings : Settings} {foreground : ι}

theorem onlyLoads_loadAll (b : Backend σ ι) (loaded : Table ι) (entries : List (String × String))
    (state : σ) : b.OnlyLoads (fun _ b => loadAll b loaded entries) state := by
  induction entries generalizing loaded state with
  | nil => exact onlyLoads_pure b loaded state
  | cons entry entries ih =>
    exact (onlyLoads_load b entry.2 state).bind
      (fun _ b image => loadAll b (loaded.insert entry.1 image) entries)
      fun image state => ih (loaded.insert entry.1 image) state

/-- Building a scene asks for nothing but images. -/
theorem onlyLoads_ofDraft (b : Backend σ ι) (d : Draft) (state : σ) :
    b.OnlyLoads (fun _ b => ofDraft b d) state := by
  have hloaded := onlyLoads_loadAll b ∅ d.images.entries state
  let scene (images : Table ι) (initial? : Option ι) : Scene ι :=
    ⟨d.variables, images, initial?, d.axes⟩
  unfold ofDraft
  cases d.initial? with
  | none =>
    exact hloaded.bind (fun _ _ images => pure (scene images none))
      fun images => onlyLoads_pure b (scene images none)
  | some locator =>
    exact hloaded.bind (fun _ b images => b.load locator >>= fun image =>
      pure (scene images (some image))) fun images state =>
        (onlyLoads_load b locator state).bind (fun _ _ image => pure (scene images (some image)))
          fun image => onlyLoads_pure b (scene images (some image))

theorem Stamped.prepares {coordinates : ℕ → Coordinate} {images : ℕ → ι} {states : ℕ → σ} {n : ℕ}
    (h : Stamped b settings foreground coordinates images states n) :
    b.Prepares (states 0) (states n) := by
  induction n with
  | zero => exact .refl
  | succ n ih => exact (ih fun k hk => h k (by omega)).composite (h n (by omega))

/-- Stamps on one image from one state lead to one row of images and states. -/
theorem Stamped.unique {coordinates : ℕ → Coordinate} {images images' : ℕ → ι}
    {states states' : ℕ → σ} {n : ℕ}
    (h : Stamped b settings foreground coordinates images states n)
    (h' : Stamped b settings foreground coordinates images' states' n)
    (himage : images 0 = images' 0) (hstate : states 0 = states' 0) :
    images n = images' n ∧ states n = states' n := by
  induction n with
  | zero => exact ⟨himage, hstate⟩
  | succ n ih =>
    obtain ⟨hn, hn'⟩ := ih (fun k hk => h k (by omega)) fun k hk => h' k (by omega)
    have hgives := h n (by omega)
    have hgives' := h' n (by omega)
    rw [StampGives, hn, hn'] at hgives
    obtain ⟨himages, hstates⟩ := Prod.mk.inj (hgives.symm.trans hgives')
    exact ⟨Except.ok.inj himages, hstates⟩

/-- Why rendering stops before anything is written. -/
inductive Stops (s : Scene ι) (b : Backend σ ι) (settings : Settings) (state : σ) : Prop
  | foreground (h : s.images.get? settings.foreground = none)
  | background (hinitial : s.initial? = none) (h : s.images.get? settings.background = none)
  /-- The stamps before this one succeed, and this one fails. -/
  | composite {foreground : ι} {images : ℕ → ι} {states : ℕ → σ} {k : ℕ} {fault : Fault}
      {state' : σ} (hforeground : s.images.get? settings.foreground = some foreground)
      (hbackground : s.initial?.or (s.images.get? settings.background) = some (images 0))
      (hstate : states 0 = state) (hk : k < gridSize s.axes)
      (h : Stamped b settings foreground (coordinate s.axes) images states k)
      (hfails : StampGives b settings foreground (coordinate s.axes k) (images k) (states k)
        (.error fault) state')

/-- Rendering stops without asking for any writing, or gets through to its only one. -/
theorem render_stops_or_writes (s : Scene ι) (b : Backend σ ι) (settings : Settings)
    (state : σ) :
    (s.Stops b settings state ∧ ∃ fault state' requests,
      b.Makes (fun _ b => s.render b settings) state (.error fault) state' requests ∧
        (∀ image path, .write image path ∉ requests) ∧ b.Prepares state state') ∨
    (¬ s.Stops b settings state ∧ ∃ state₁ image result state' requests,
      b.Prepares state state₁ ∧ (b.write image settings.out).perform state₁ = (result, state') ∧
        b.Makes (fun _ b => s.render b settings) state (result.map fun _ => gridSize s.axes)
          state' requests ∧ .write image settings.out ∈ requests) := by
  cases hforeground : s.images.get? settings.foreground with
  | none =>
    refine .inl ⟨.foreground hforeground, .unknownImage settings.foreground, state, [], ?_,
      by simp, .refl⟩
    simp only [render_of_unknown _ (imageNamed_of_none hforeground)]
    exact makes_ofExcept _
  | some foreground =>
    cases hbackground : s.initial?.or (s.images.get? settings.background) with
    | none =>
      obtain ⟨hinitial, hnamed⟩ := Option.or_eq_none_iff.mp hbackground
      refine .inl ⟨.background hinitial hnamed, .unknownImage settings.background, state, [], ?_,
        by simp, .refl⟩
      simp only [render_of_no_backdrop _ (imageNamed_of_some hforeground)
        (backdrop_of_none hbackground)]
      exact makes_ofExcept _
    | some background =>
      obtain ⟨images, states, rfl, rfl, hrender⟩ := makes_render b state hforeground hbackground
      rcases hrender with ⟨k, hk, fault, state', hstamped, hfails, hmakes⟩ |
        ⟨hstamped, result, state', hwrite, hmakes⟩
      · refine .inl ⟨.composite hforeground hbackground rfl hk hstamped hfails, fault, state', _,
          hmakes, ?_, hstamped.prepares.composite hfails⟩
        simp [stampOn]
      · refine .inr ⟨fun hstops => ?_, _, _, result, state', _, hstamped.prepares, hwrite, hmakes,
          by simp⟩
        cases hstops with
        | foreground h => simp [hforeground] at h
        | background hinitial h => simp [hinitial, h] at hbackground
        | @composite foreground' images' states' k fault state'' hforeground' hbackground' hstate hk
            h hfails =>
          -- both rows of stamps start alike, so the stamp said to fail is one that succeeds
          obtain rfl := Option.some.inj (hforeground.symm.trans hforeground')
          have hfirst := Option.some.inj (hbackground.symm.trans hbackground')
          obtain ⟨himage, hk'⟩ := Stamped.unique (fun j hj => hstamped j (by omega)) h hfirst
            hstate.symm
          have hgives := hstamped k hk
          rw [StampGives, himage, hk'] at hgives
          cases (Prod.mk.inj (hgives.symm.trans hfails)).1

end Scene
end StampGrid
