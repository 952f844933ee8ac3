import StampGrid.Proofs.Backend.Requests
import StampGrid.Proofs.Grid.Pass
import StampGrid.Render

/-!
# What rendering asks of a backend

Rendering looks its two images up before it asks for anything. Then it asks for
one stamp for each coordinate, in the order of the pass, each on the result of the
one before it, and last for the writing of what the stamps have led to. A failure
ends it at once. Nothing is assumed of the backend: it may change its state and
fail at any request.
-/
namespace StampGrid

open Axis

/-- The offset has the values of coordinate `k` on the two axes of the settings. -/
structure Settings.Places (settings : Settings) (axes : List Axis) (k : ℕ) (o : Offset) :
    Prop where
  x : ValueAt axes k settings.xAxis o.x
  y : ValueAt axes k settings.yAxis o.y

theorem Settings.places_iff {settings : Settings} {axes : List Axis} {k : ℕ} {o : Offset} :
    settings.Places axes k o ↔ settings.offset (coordinate axes k) = o := by
  constructor
  · rintro ⟨hx, hy⟩
    rw [offset, hx.getD_get?, hy.getD_get?]
  · rintro rfl
    exact ⟨valueAt_iff.mpr rfl, valueAt_iff.mpr rfl⟩

namespace Scene

variable {σ ι : Type}

/-- The request for the stamp of a coordinate on an image. -/
def stampOn (settings : Settings) (foreground image : ι) (c : Coordinate) : Call ι :=
  .composite foreground image (settings.offset c) settings.size?

/-- The stamp of a coordinate falls on an image and the backend answers with the result. -/
def StampGives (b : Backend σ ι) (settings : Settings) (foreground : ι) (c : Coordinate)
    (image : ι) (state : σ) (result : Except Fault ι) (state' : σ) : Prop :=
  (b.composite foreground image (settings.offset c) settings.size?).perform state =
    (result, state')

/-- The first `n` stamps succeed: stamp `k` falls on `images k` and gives
`images (k + 1)`, and takes the backend from `states k` to `states (k + 1)`. -/
def Stamped (b : Backend σ ι) (settings : Settings) (foreground : ι) (coordinates : ℕ → Coordinate)
    (images : ℕ → ι) (states : ℕ → σ) (n : ℕ) : Prop :=
  ∀ k < n, StampGives b settings foreground (coordinates k) (images k) (states k)
    (.ok (images (k + 1))) (states (k + 1))

variable {b : Backend σ ι} {settings : Settings} {foreground : ι} {image : ι} {state state' : σ}

theorem makes_stamp {c : Coordinate} {result : Except Fault ι} (count : ℕ)
    (h : StampGives b settings foreground c image state result state') :
    b.Makes (fun _ b => stamp b settings foreground (image, count) c) state
      (result.map fun image => (image, count + 1)) state'
      [stampOn settings foreground image c] := by
  have hcomposite := Backend.makes_composite h
  cases result with
  | error fault => exact hcomposite.bind_error fun _ _ image => pure (image, count + 1)
  | ok image' =>
    exact hcomposite.bind (fun _ _ image => pure (image, count + 1))
      (Backend.makes_pure (image', count + 1))

/-- A sequence with one value put in front of it. -/
def inFront {α : Type} (first : α) (rest : ℕ → α) : ℕ → α
  | 0 => first
  | k + 1 => rest k

/-- A stamp and those that follow on its result. -/
theorem Stamped.cons {coordinates : ℕ → Coordinate} {images : ℕ → ι} {states : ℕ → σ} {m : ℕ}
    (hfirst : StampGives b settings foreground (coordinates 0) image state (.ok (images 0))
      (states 0))
    (h : Stamped b settings foreground (fun k => coordinates (k + 1)) images states m) :
    Stamped b settings foreground coordinates (inFront image images)
      (inFront state states) (m + 1) := by
  intro k hk
  cases k with
  | zero => exact hfirst
  | succ k => exact h k (Nat.lt_of_succ_lt_succ hk)

theorem map_range_succ {α : Type} (f : ℕ → α) (n : ℕ) :
    (List.range (n + 1)).map f = [f 0] ++ (List.range n).map fun k => f (k + 1) := by
  rw [List.range_succ_eq_map, List.map_cons, List.map_map]
  rfl

/-- Where the stamps for a row of coordinates lead. Either all of them succeed, or
there is a first that fails, and then no further one is asked for. -/
theorem makes_stamps (b : Backend σ ι) (settings : Settings) (foreground : ι)
    (coordinates : ℕ → Coordinate) (n : ℕ) (image : ι) (count : ℕ) (state : σ) :
    ∃ images states, images 0 = image ∧ states 0 = state ∧
      ((∃ k < n, ∃ fault state',
          Stamped b settings foreground coordinates images states k ∧
          StampGives b settings foreground (coordinates k) (images k) (states k)
            (.error fault) state' ∧
          b.Makes (fun _ b => ((List.range n).map coordinates).foldlM
              (stamp b settings foreground) (image, count)) state (.error fault) state'
            ((List.range (k + 1)).map fun k =>
              stampOn settings foreground (images k) (coordinates k))) ∨
        Stamped b settings foreground coordinates images states n ∧
          b.Makes (fun _ b => ((List.range n).map coordinates).foldlM
              (stamp b settings foreground) (image, count)) state
            (.ok (images n, count + n)) (states n)
            ((List.range n).map fun k =>
              stampOn settings foreground (images k) (coordinates k))) := by
  induction n generalizing coordinates image count state with
  | zero =>
    exact ⟨fun _ => image, fun _ => state, rfl, rfl, .inr ⟨fun k hk => by omega,
      Backend.makes_pure (image, count)⟩⟩
  | succ n ih =>
    rw [map_range_succ]
    rcases hresult : (b.composite foreground image (settings.offset (coordinates 0))
      settings.size?).perform state with ⟨result, state₁⟩
    have hfirst := makes_stamp count hresult
    cases result with
    | error fault =>
      refine ⟨fun _ => image, fun _ => state, rfl, rfl, .inl ⟨0, n.succ_pos, fault, state₁,
        fun k hk => absurd hk k.not_lt_zero, hresult, ?_⟩⟩
      exact hfirst.bind_error fun _ b done =>
        ((List.range n).map fun k => coordinates (k + 1)).foldlM
          (stamp b settings foreground) done
    | ok image₁ =>
      obtain ⟨images, states, rfl, rfl, hrest⟩ :=
        ih (fun k => coordinates (k + 1)) image₁ (count + 1) state₁
      have hbind {outcome : Except Fault (ι × ℕ)} {state' : σ} {requests : List (Call ι)}
          (h : b.Makes (fun _ b => ((List.range n).map fun k => coordinates (k + 1)).foldlM
            (stamp b settings foreground) (images 0, count + 1)) (states 0) outcome state'
            requests) :=
        hfirst.bind (fun _ b done => ((List.range n).map fun k => coordinates (k + 1)).foldlM
          (stamp b settings foreground) done) h
      refine ⟨inFront image images, inFront state states, rfl, rfl, ?_⟩
      rcases hrest with ⟨k, hk, fault, state', hleading, hfails, hmakes⟩ | ⟨hall, hmakes⟩
      · refine .inl ⟨k + 1, Nat.succ_lt_succ hk, fault, state', hleading.cons hresult,
          hfails, ?_⟩
        rw [map_range_succ]
        exact hbind hmakes
      · refine .inr ⟨hall.cons hresult, ?_⟩
        rw [map_range_succ, show count + (n + 1) = count + 1 + n by omega]
        exact hbind hmakes

theorem imageNamed_of_none {s : Scene ι} {name : String} (h : s.images.get? name = none) :
    s.imageNamed name = .error (.unknownImage name) := by
  rw [imageNamed, h]

theorem imageNamed_of_some {s : Scene ι} {name : String} {image : ι}
    (h : s.images.get? name = some image) : s.imageNamed name = .ok image := by
  rw [imageNamed, h]

theorem backdrop_of_some {s : Scene ι}
    (h : (s.initial?.or (s.images.get? settings.background)) = some image) :
    s.backdrop settings = .ok image := by
  rw [backdrop]
  cases hinitial : s.initial? with
  | none => exact imageNamed_of_some (by simpa [hinitial] using h)
  | some initial => simpa [hinitial] using h

theorem backdrop_of_none {s : Scene ι}
    (h : (s.initial?.or (s.images.get? settings.background)) = none) :
    s.backdrop settings = .error (.unknownImage settings.background) := by
  obtain ⟨hinitial, hnamed⟩ := Option.or_eq_none_iff.mp h
  rw [backdrop, hinitial]
  exact imageNamed_of_none hnamed

/-- A look-up that fails is all there is. -/
theorem render_of_unknown {s : Scene ι} (b : Backend σ ι) {fault : Fault}
    (h : s.imageNamed settings.foreground = .error fault) :
    s.render b settings = Effect.ofExcept (.error fault) := by
  rw [render, h]
  rfl

theorem render_of_no_backdrop {s : Scene ι} (b : Backend σ ι) {fault : Fault}
    (hforeground : s.imageNamed settings.foreground = .ok foreground)
    (h : s.backdrop settings = .error fault) :
    s.render b settings = Effect.ofExcept (.error fault) := by
  rw [render, hforeground, h]
  rfl

theorem render_of_found {s : Scene ι} (b : Backend σ ι) {background : ι}
    (hforeground : s.imageNamed settings.foreground = .ok foreground)
    (hbackdrop : s.backdrop settings = .ok background) :
    s.render b settings =
      ((List.range (gridSize s.axes)).map (coordinate s.axes)).foldlM
          (stamp b settings foreground) (background, 0) >>= fun done =>
        b.write done.1 settings.out >>= fun _ => pure done.2 := by
  rw [← Odometer.foldM_start, render, hforeground, hbackdrop]
  rfl

/-- A scene whose images are found is stamped at every coordinate and written, up to
the first failure. -/
theorem makes_render {s : Scene ι} (b : Backend σ ι) (state : σ) {background : ι}
    (hforeground : s.images.get? settings.foreground = some foreground)
    (hbackground : s.initial?.or (s.images.get? settings.background) = some background) :
    ∃ images states, images 0 = background ∧ states 0 = state ∧
      ((∃ k < gridSize s.axes, ∃ fault state',
          Stamped b settings foreground (coordinate s.axes) images states k ∧
          StampGives b settings foreground (coordinate s.axes k) (images k) (states k)
            (.error fault) state' ∧
          b.Makes (fun _ b => s.render b settings) state (.error fault) state'
            ((List.range (k + 1)).map fun k =>
              stampOn settings foreground (images k) (coordinate s.axes k))) ∨
        Stamped b settings foreground (coordinate s.axes) images states (gridSize s.axes) ∧
          ∃ result state', (b.write (images (gridSize s.axes)) settings.out).perform
              (states (gridSize s.axes)) = (result, state') ∧
            b.Makes (fun _ b => s.render b settings) state (result.map fun _ => gridSize s.axes)
              state' (((List.range (gridSize s.axes)).map fun k =>
                stampOn settings foreground (images k) (coordinate s.axes k)) ++
                  [.write (images (gridSize s.axes)) settings.out])) := by
  have hrender {τ : Type} (b : Backend τ ι) :=
    render_of_found b (imageNamed_of_some hforeground) (backdrop_of_some hbackground)
  simp only [hrender]
  obtain ⟨images, states, hzero, hstart, hstamps⟩ :=
    makes_stamps b settings foreground (coordinate s.axes) (gridSize s.axes) background 0 state
  refine ⟨images, states, hzero, hstart, ?_⟩
  rcases hstamps with ⟨k, hk, fault, state', hleading, hfails, hmakes⟩ | ⟨hall, hmakes⟩
  · exact .inl ⟨k, hk, fault, state', hleading, hfails, hmakes.bind_error fun _ b done =>
      b.write done.1 settings.out >>= fun _ => pure done.2⟩
  · rcases hwrite : (b.write (images (gridSize s.axes)) settings.out).perform
      (states (gridSize s.axes)) with ⟨result, state'⟩
    refine .inr ⟨hall, result, state', rfl, hmakes.bind (fun _ b done =>
      b.write done.1 settings.out >>= fun _ => pure done.2) ?_⟩
    have hwrites := Backend.makes_write hwrite
    cases result with
    | error fault => exact hwrites.bind_error fun _ _ _ => pure (0 + gridSize s.axes)
    | ok =>
      rw [Nat.zero_add]
      exact hwrites.bind (fun _ _ _ => pure (gridSize s.axes))
        (Backend.makes_pure (gridSize s.axes))

/-- Where a scene says where to start, the name of the background is not looked up. -/
theorem render_background {s : Scene ι} (b : Backend σ ι) (settings : Settings) (name : String)
    (h : s.initial?.isSome) :
    s.render b { settings with background := name } = s.render b settings := by
  obtain ⟨initial, hinitial⟩ := Option.isSome_iff_exists.mp h
  have hbackdrop (settings : Settings) : s.backdrop settings = .ok initial := by
    rw [backdrop, hinitial]
  simp only [render, hbackdrop]
  rfl

/-- What rendering asks of any backend. An unknown foreground, or else an unknown
background where the scene does not say where to start, is refused without a request.
Otherwise the stamps follow the coordinates of a pass, each on the result of the one
before and at the values of its coordinate on the two axes of the settings, and then the
last result is written. A stamp that fails is the last request and its failure the result;
the result of the writing is the result otherwise, and on success it is the number of
coordinates. -/
theorem render_requests (s : Scene ι) (b : Backend σ ι) (settings : Settings) (state : σ) :
    (∀ k, (s.coordinates.afterCalls k).next?.1 =
      if k < gridSize s.axes then some (coordinate s.axes k) else none) ∧
    (∀ k o, settings.Places s.axes k o ↔ settings.offset (coordinate s.axes k) = o) ∧
    (s.images.get? settings.foreground = none →
      b.Makes (fun _ b => s.render b settings) state
        (.error (.unknownImage settings.foreground)) state []) ∧
    (s.images.get? settings.foreground ≠ none → s.initial? = none →
      s.images.get? settings.background = none →
      b.Makes (fun _ b => s.render b settings) state
        (.error (.unknownImage settings.background)) state []) ∧
    (s.initial?.isSome → ∀ name,
      s.render b { settings with background := name } = s.render b settings) ∧
    ∀ foreground background, s.images.get? settings.foreground = some foreground →
      s.initial?.or (s.images.get? settings.background) = some background →
      ∃ images states, images 0 = background ∧ states 0 = state ∧
        ((∃ k < gridSize s.axes, ∃ fault state',
            Stamped b settings foreground (coordinate s.axes) images states k ∧
            StampGives b settings foreground (coordinate s.axes k) (images k) (states k)
              (.error fault) state' ∧
            b.Makes (fun _ b => s.render b settings) state (.error fault) state'
              ((List.range (k + 1)).map fun k =>
                stampOn settings foreground (images k) (coordinate s.axes k))) ∨
          Stamped b settings foreground (coordinate s.axes) images states (gridSize s.axes) ∧
            ∃ result state', (b.write (images (gridSize s.axes)) settings.out).perform
                (states (gridSize s.axes)) = (result, state') ∧
              b.Makes (fun _ b => s.render b settings) state
                (result.map fun _ => gridSize s.axes) state'
                (((List.range (gridSize s.axes)).map fun k =>
                  stampOn settings foreground (images k) (coordinate s.axes k)) ++
                    [.write (images (gridSize s.axes)) settings.out])) := by
  refine ⟨Odometer.answer_eq s.axes, fun _ _ => Settings.places_iff, fun hforeground => ?_,
    fun hforeground hinitial hnamed => ?_,
    fun hinitial name => render_background b settings name hinitial,
    fun foreground background => makes_render b state⟩
  · have hlookup := imageNamed_of_none hforeground
    simp only [render_of_unknown _ hlookup]
    exact Backend.makes_ofExcept _
  · obtain ⟨foreground, hforeground⟩ := Option.ne_none_iff_exists'.mp hforeground
    have hbackdrop : s.backdrop settings = .error (.unknownImage settings.background) :=
      backdrop_of_none (by rw [hinitial, hnamed]; rfl)
    simp only [render_of_no_backdrop _ (imageNamed_of_some hforeground) hbackdrop]
    exact Backend.makes_ofExcept _

end Scene
end StampGrid
