import StampGrid.Backend.Painter
import StampGrid.Proofs.Render.Calls

/-!
# What a painted picture shows

Stamps are painted over each other, so at every place the last stamp that is opaque
there is seen, and where none is, what was there before. This needs little of how
pictures are laid on each other (`Overlays`): nothing of how colours are mixed.
-/
namespace StampGrid

namespace Picture

/-- A place inside a picture has a pixel. -/
theorem exists_at?_eq_some {p : Picture} {x y : ℤ}
    (h : 0 ≤ x ∧ x < p.width ∧ 0 ≤ y ∧ y < p.height) : ∃ pixel, p.at? x y = some pixel := by
  obtain ⟨hx, hxw, hy, hyh⟩ := h
  lift x to ℕ using hx
  lift y to ℕ using hy
  have hlt : y * p.width + x < p.pixels.size := by
    rw [p.size_eq]
    calc y * p.width + x < (y + 1) * p.width := by
          rw [Nat.add_mul, Nat.one_mul]
          omega
      _ ≤ p.height * p.width := Nat.mul_le_mul_right _ (by omega)
      _ = p.width * p.height := Nat.mul_comm _ _
  refine ⟨p.pixels[y * p.width + x], ?_⟩
  rw [at?_eq_getElem? (by omega), Int.toNat_natCast, Int.toNat_natCast,
    Array.getElem?_eq_getElem hlt]

theorem isSome_at?_iff (p : Picture) (x y : ℤ) :
    (p.at? x y).isSome ↔ 0 ≤ x ∧ x < p.width ∧ 0 ≤ y ∧ y < p.height := by
  constructor
  · intro h
    by_contra houtside
    rw [at?_eq_none houtside] at h
    contradiction
  · intro h
    obtain ⟨pixel, hpixel⟩ := exists_at?_eq_some h
    rw [hpixel]
    rfl

theorem mem_pixels_of_at? {p : Picture} {x y : ℤ} {pixel : Pixel} (h : p.at? x y = some pixel) :
    pixel ∈ p.pixels := by
  have hinside := (p.isSome_at?_iff x y).mp (by rw [h]; rfl)
  rw [at?_eq_getElem? hinside] at h
  exact Array.mem_of_getElem? h

/-- What painting relies on. Laying a picture on another keeps the size of the one
below. A pixel above falls on the place that its own place and the offset add up to;
there it is seen if it is opaque, and changes nothing if it has no opacity. Where no
pixel falls, nothing changes. -/
structure Overlays (lay : (bottom top : Picture) → Offset → Picture) : Prop where
  width_eq : ∀ bottom top offset, (lay bottom top offset).width = bottom.width
  height_eq : ∀ bottom top offset, (lay bottom top offset).height = bottom.height
  beside : ∀ bottom top offset x y, top.at? (x - offset.x) (y - offset.y) = none →
    (lay bottom top offset).at? x y = bottom.at? x y
  unseen : ∀ bottom top offset x y pixel, top.at? (x - offset.x) (y - offset.y) = some pixel →
    pixel.alpha = 0 → (lay bottom top offset).at? x y = bottom.at? x y
  covering : ∀ bottom top offset x y pixel, top.at? (x - offset.x) (y - offset.y) = some pixel →
    pixel.alpha = 255 → (bottom.at? x y).isSome → (lay bottom top offset).at? x y = some pixel

/-- What is seen at a place where a picture is laid on another. -/
theorem at?_overlay (bottom top : Picture) (offset : Offset) (x y : ℤ) :
    (bottom.overlay top offset).at? x y = (bottom.at? x y).map fun below =>
      match top.at? (x - offset.x) (y - offset.y) with
      | some above => below.blend above
      | none => below := by
  rw [overlay, at?_generate]
  split_ifs with hinside
  · obtain ⟨below, hbelow⟩ := exists_at?_eq_some hinside
    rw [Int.toNat_of_nonneg hinside.1, Int.toNat_of_nonneg hinside.2.2.1, hbelow]
    rfl
  · rw [at?_eq_none hinside]
    rfl

theorem overlays_overlay : Overlays overlay where
  width_eq _ _ _ := rfl
  height_eq _ _ _ := rfl
  beside bottom top offset x y habove := by
    rw [at?_overlay, habove]
    exact Option.map_id'
  unseen bottom top offset x y pixel habove halpha := by
    have hblend (below : Pixel) : below.blend pixel = below := by
      rw [Pixel.blend, if_pos halpha]
    rw [at?_overlay, habove]
    simp only [hblend]
    exact Option.map_id'
  covering bottom top offset x y pixel habove halpha hinside := by
    obtain ⟨below, hbelow⟩ := Option.isSome_iff_exists.mp hinside
    have hblend : below.blend pixel = pixel := by
      rw [Pixel.blend, if_neg (by rw [halpha]; decide), if_pos halpha]
    rw [at?_overlay, habove, hbelow]
    exact congrArg some hblend

/-! ## Pictures laid one after the other -/

section Layers

variable {lay : (bottom top : Picture) → Offset → Picture} {top : Picture}
  {offsets : ℕ → Offset} {pictures : ℕ → Picture} {n : ℕ}

/-- The first `n` times, the picture `top` is laid on what the time before has led to. -/
def Layered (lay : (bottom top : Picture) → Offset → Picture) (top : Picture)
    (offsets : ℕ → Offset) (pictures : ℕ → Picture) (n : ℕ) : Prop :=
  ∀ k < n, pictures (k + 1) = lay (pictures k) top (offsets k)

/-- The pixel that falls on a place from an offset. -/
def falling? (top : Picture) (offset : Offset) (x y : ℤ) : Option Pixel :=
  top.at? (x - offset.x) (y - offset.y)

theorem Layered.size_eq (hlay : Overlays lay) (h : Layered lay top offsets pictures n) {k : ℕ}
    (hk : k ≤ n) :
    (pictures k).width = (pictures 0).width ∧ (pictures k).height = (pictures 0).height := by
  induction k with
  | zero => exact ⟨rfl, rfl⟩
  | succ k ih =>
    obtain ⟨hwidth, hheight⟩ := ih (Nat.le_of_succ_le hk)
    rw [h k hk, hlay.width_eq, hlay.height_eq]
    exact ⟨hwidth, hheight⟩

/-- From `m` on nothing changes at a place where only clear pixels fall, or none. -/
theorem Layered.at?_of_clear (hlay : Overlays lay) (h : Layered lay top offsets pictures n)
    {x y : ℤ} {m k : ℕ} (hmk : m ≤ k) (hkn : k ≤ n)
    (hclear : ∀ j, m ≤ j → j < k → ∀ pixel ∈ top.falling? (offsets j) x y, pixel.alpha = 0) :
    (pictures k).at? x y = (pictures m).at? x y := by
  induction k, hmk using Nat.le_induction with
  | base => rfl
  | succ k hmk ih =>
    have hbefore := ih (Nat.le_of_succ_le hkn) fun j hmj hjk =>
      hclear j hmj (Nat.lt_succ_of_lt hjk)
    rw [h k hkn, ← hbefore]
    cases hpixel : top.falling? (offsets k) x y with
    | none => exact hlay.beside _ _ _ x y hpixel
    | some pixel =>
      exact hlay.unseen _ _ _ x y pixel hpixel (hclear k hmk k.lt_succ_self pixel hpixel)

/-- An opaque pixel is seen as long as only clear ones fall on its place after it. -/
theorem Layered.at?_of_covering (hlay : Overlays lay) (h : Layered lay top offsets pictures n)
    {x y : ℤ} {k : ℕ} {pixel : Pixel} (hkn : k < n)
    (hinside : ((pictures 0).at? x y).isSome)
    (hpixel : top.falling? (offsets k) x y = some pixel) (halpha : pixel.alpha = 255)
    (hclear : ∀ j, k < j → j < n → ∀ pixel ∈ top.falling? (offsets j) x y, pixel.alpha = 0) :
    (pictures n).at? x y = some pixel := by
  rw [h.at?_of_clear hlay hkn le_rfl hclear, h k hkn]
  obtain ⟨hwidth, hheight⟩ := h.size_eq hlay hkn.le
  rw [isSome_at?_iff, ← hwidth, ← hheight, ← isSome_at?_iff] at hinside
  exact hlay.covering _ _ _ x y pixel hpixel halpha hinside

end Layers

end Picture

namespace Painter
open Axis

/-- A size that the foreground has anyway does not change it. -/
theorem scaled_of_own_size {foreground : Picture} {size? : Option Geometry}
    (h : size? = none ∨ size? = some ⟨foreground.width, foreground.height⟩) :
    scaled foreground size? = foreground := by
  rcases h with rfl | rfl
  · rfl
  · exact if_pos ⟨rfl, rfl⟩

/-- The painter never fails to stamp. -/
theorem stampGives_eq {root : String} {settings : Settings} {foreground image : Picture}
    {c : Coordinate} {disk disk' : Disk} {result : Except Fault Picture}
    (h : Scene.StampGives (backend root) settings foreground c image disk result disk') :
    result = .ok (stamp foreground image (settings.offset c) settings.size?) :=
  (Prod.mk.inj h).1.symm

theorem layered_of_stamped {root : String} {settings : Settings} {foreground : Picture}
    {coordinates : ℕ → Coordinate} {images : ℕ → Picture} {disks : ℕ → Disk} {n : ℕ}
    (hsize : settings.size? = none ∨
      settings.size? = some ⟨foreground.width, foreground.height⟩)
    (h : Scene.Stamped (backend root) settings foreground coordinates images disks n) :
    Picture.Layered Picture.overlay foreground (fun k => settings.offset (coordinates k)) images
      n := by
  intro k hk
  have hstamp := stampGives_eq (h k hk)
  rw [stamp, scaled_of_own_size hsize] at hstamp
  exact Except.ok.inj hstamp

/-- What the painter writes. The stamp of a coordinate goes to its values on the two axes of
the settings. The picture has the size of what the stamps started from.
If every pixel of the foreground is opaque or clear, the pixel at a place is the one of
the last stamp that is opaque there, and that of the start if there is no such stamp. A
place on which no stamp falls keeps its pixel, whatever the foreground is. -/
theorem render_paints {s : Scene Picture} {settings : Settings} {foreground background : Picture}
    (root : String) (disk : Disk)
    (hforeground : s.images.get? settings.foreground = some foreground)
    (hbackground : s.initial?.or (s.images.get? settings.background) = some background)
    (hsize : settings.size? = none ∨
      settings.size? = some ⟨foreground.width, foreground.height⟩) :
    Picture.Overlays Picture.overlay ∧
    (∀ k o, settings.Places s.axes k o ↔ settings.offset (coordinate s.axes k) = o) ∧
    ∃ image stamps result disk', (backend root).Makes (fun _ b => s.render b settings) disk
        result disk' (stamps ++ [.write image settings.out]) ∧
      (∀ other path, .write other path ∉ stamps) ∧
      image.width = background.width ∧ image.height = background.height ∧
      ((∀ pixel ∈ foreground.pixels, pixel.alpha = 0 ∨ pixel.alpha = 255) →
        ∀ x y : ℤ, 0 ≤ x → x < background.width → 0 ≤ y → y < background.height →
          (∀ k < gridSize s.axes, ∀ pixel,
            foreground.falling? (settings.offset (coordinate s.axes k)) x y = some pixel →
            pixel.alpha = 255 →
            (∀ j, k < j → j < gridSize s.axes → ∀ later ∈
              foreground.falling? (settings.offset (coordinate s.axes j)) x y,
              later.alpha ≠ 255) →
            image.at? x y = some pixel) ∧
          ((∀ k < gridSize s.axes, ∀ pixel ∈
              foreground.falling? (settings.offset (coordinate s.axes k)) x y,
              pixel.alpha ≠ 255) →
            image.at? x y = background.at? x y)) ∧
      ∀ x y : ℤ, (∀ k < gridSize s.axes,
          foreground.falling? (settings.offset (coordinate s.axes k)) x y = none) →
        image.at? x y = background.at? x y := by
  obtain ⟨images, disks, rfl, rfl, hrender⟩ :=
    Scene.makes_render (backend root) disk hforeground hbackground
  have hlay := Picture.overlays_overlay
  rcases hrender with ⟨k, -, fault, disk', -, hfails, -⟩ | ⟨hall, result, disk', -, hmakes⟩
  · exact absurd (stampGives_eq hfails) (by simp)
  have hlayered := layered_of_stamped hsize hall
  obtain ⟨hwidth, hheight⟩ := hlayered.size_eq hlay le_rfl
  refine ⟨hlay, fun _ _ => Settings.places_iff, images (gridSize s.axes), _, _, disk', hmakes, ?_,
    hwidth, hheight, ?_, ?_⟩
  · intro other path hmem
    obtain ⟨k, -, hk⟩ := List.mem_map.mp hmem
    simp [Scene.stampOn] at hk
  · intro hpixels x y hx hxw hy hyh
    have hinside := ((images 0).isSome_at?_iff x y).mpr ⟨hx, hxw, hy, hyh⟩
    -- with two kinds of pixels, the ones that do not hide are clear
    have hclear {k : ℕ} (h : ∀ pixel ∈
          foreground.falling? (settings.offset (coordinate s.axes k)) x y, pixel.alpha ≠ 255) :
        ∀ pixel ∈ foreground.falling? (settings.offset (coordinate s.axes k)) x y,
          pixel.alpha = 0 := by
      intro pixel hpixel
      exact (hpixels pixel (Picture.mem_pixels_of_at? hpixel)).resolve_right (h pixel hpixel)
    constructor
    · intro k hk pixel hpixel halpha hlast
      exact hlayered.at?_of_covering hlay hk hinside hpixel halpha fun j hkj hj =>
        hclear (hlast j hkj hj)
    · intro hnone
      exact hlayered.at?_of_clear hlay (Nat.zero_le _) le_rfl fun j _ hj => hclear (hnone j hj)
  · intro x y hnone
    refine hlayered.at?_of_clear hlay (Nat.zero_le _) le_rfl fun j _ hj pixel hpixel => ?_
    rw [hnone j hj] at hpixel
    contradiction

/-- A stamp of a red and a blue pixel at -1, 0 and 1: it is clipped at the left, and at
place 1 the red pixel of the last stamp hides the blue one of the stamp before. -/
theorem render_paints_overlapping :
    let red : Pixel := ⟨255, 0, 0, 255⟩
    let blue : Pixel := ⟨0, 0, 255, 255⟩
    let foreground := Picture.generate 2 1 fun x _ => if x = 0 then red else blue
    let background := Picture.generate 3 1 fun _ _ => ⟨9, 9, 9, 9⟩
    let s : Scene Picture := ⟨∅, (Table.insert ∅ "fg" foreground).insert "bg" background, none,
      [⟨"x", ⟨-1, 2, 1, by decide⟩⟩]⟩
    s.images.get? "fg" = some foreground ∧
      s.initial?.or (s.images.get? "bg") = some background ∧
      ∃ image stamps result disk', (backend ".").Makes (fun _ b => s.render b {}) {} result disk'
          (stamps ++ [.write image "output.png"]) ∧
        image.width = 3 ∧ image.at? 1 0 = some red := by
  intro red blue foreground background s
  have hforeground : s.images.get? "fg" = some foreground := by simp [s]
  have hbackground : s.initial?.or (s.images.get? "bg") = some background := by simp [s]
  have hsize : gridSize s.axes = 3 := by decide +kernel
  have hpixels : ∀ pixel ∈ foreground.pixels, pixel.alpha = 0 ∨ pixel.alpha = 255 := by
    decide +kernel
  have hred : foreground.falling? (Settings.offset {} (coordinate s.axes 2)) 1 0 = some red := by
    decide +kernel
  obtain ⟨-, -, image, stamps, result, disk', hmakes, -, hwidth, -, hpainted, -⟩ :=
    render_paints "." {} hforeground hbackground (.inl (rfl : ({} : Settings).size? = none))
  have hlast := (hpainted hpixels 1 0 (by decide) (by decide) le_rfl (by decide)).1 2
    (by rw [hsize]; decide) red hred rfl fun j hj hlt => by omega
  exact ⟨hforeground, hbackground, image, stamps, result, disk', hmakes, hwidth, hlast⟩

end Painter
end StampGrid
