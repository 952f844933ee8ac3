import StampGrid.Proofs.Grid.Product
import StampGrid.Proofs.Render.Painting

/-!
# Axes that only repeat stamps

An axis that is not one of the two that give offsets makes rendering go through the
stamps of the axes inside it again, once for each of its values. Wherever it stands
among the axes, every offset is then stamped as many times as before for each value.
With a foreground that hides or shows what is below, a row of stamps that is repeated
at once changes nothing, so the picture stays the same.
-/
namespace StampGrid
open Axis

theorem Coordinate.get?_join (c c' : Coordinate) (name : String) :
    (join c c').get? name = (c.get? name).or (c'.get? name) := by
  simp only [get?, join, List.find?_append, Option.map_or]

theorem Coordinate.get?_join_between (c c' : Coordinate) {name extra : String} (v : ℤ)
    (h : extra ≠ name) : (join c (join ⟨[(extra, v)]⟩ c')).get? name = (join c c').get? name := by
  have hextra : (⟨[(extra, v)]⟩ : Coordinate).get? name = none :=
    get?_eq_none_iff.mpr (by simpa using h)
  rw [get?_join, get?_join, get?_join, hextra, Option.none_or]

/-- The offset of the stamp that is asked for, if a stamp is. -/
def Call.offset? {ι : Type} : Call ι → Option Offset
  | .composite _ _ offset _ => some offset
  | _ => none

/-- The offsets of the stamps among some requests, in order. -/
def stampOffsets {ι : Type} (requests : List (Call ι)) : List Offset :=
  requests.filterMap Call.offset?

/-! ## The offsets of the stamps -/

namespace Settings

variable {settings : Settings} {extra : Axis}

/-- The offsets at which the grid of these axes is stamped, in order. -/
def offsets (settings : Settings) (axes : List Axis) : List Offset :=
  (coordinates axes).map settings.offset

/-- The offsets of the inner axes where the outer ones stand at a coordinate. -/
def innerOffsets (settings : Settings) (inner : List Axis) (c : Coordinate) : List Offset :=
  (coordinates inner).map fun c' => settings.offset (join c c')

theorem offsets_append (settings : Settings) (outer inner : List Axis) :
    settings.offsets (outer ++ inner) =
      (coordinates outer).flatMap (settings.innerOffsets inner) := by
  simp only [offsets, coordinates_append, List.map_flatMap, List.map_map]
  rfl

/-- The extra axis repeats the offsets of the axes inside it. -/
theorem innerOffsets_cons (hx : extra.name ≠ settings.xAxis) (hy : extra.name ≠ settings.yAxis)
    (inner : List Axis) (c : Coordinate) :
    settings.innerOffsets (extra :: inner) c =
      (List.replicate extra.stride.length (settings.innerOffsets inner c)).flatten := by
  have hoffset (v : ℤ) (c' : Coordinate) :
      settings.offset (join c (join ⟨[(extra.name, v)]⟩ c')) = settings.offset (join c c') := by
    simp only [offset, Coordinate.get?_join_between _ _ _ hx, Coordinate.get?_join_between _ _ _ hy]
  rw [innerOffsets, coordinates_cons, List.map_flatMap]
  simp only [List.map_map, Function.comp_def, hoffset]
  rw [List.flatMap_def, List.map_const', List.length_range]
  rfl

theorem count_offsets_insert (hx : extra.name ≠ settings.xAxis)
    (hy : extra.name ≠ settings.yAxis) (outer inner : List Axis) (o : Offset) :
    (settings.offsets (outer ++ extra :: inner)).count o =
      extra.stride.length * (settings.offsets (outer ++ inner)).count o := by
  have hblock (c : Coordinate) : (settings.innerOffsets (extra :: inner) c).count o =
      extra.stride.length * (settings.innerOffsets inner c).count o := by
    rw [innerOffsets_cons hx hy, List.count_flatten, List.map_replicate, List.sum_replicate,
      smul_eq_mul]
  rw [offsets_append, offsets_append, List.count_flatMap, List.count_flatMap,
    ← List.sum_map_mul_left]
  simp only [Function.comp_def, hblock]

end Settings

/-! ## Pictures with repeated stamps -/

namespace Picture

variable {lay : (bottom top : Picture) → Offset → Picture} {top bottom : Picture}

theorem at?_natCast {p : Picture} {x y : ℕ} (hx : x < p.width) (hy : y < p.height) :
    p.at? x y = p.pixels[y * p.width + x]? := by
  rw [at?_eq_getElem? (by omega), Int.toNat_natCast, Int.toNat_natCast]

/-- Pictures that show the same pixel at every place are the same. -/
theorem ext_at? {p q : Picture} (hwidth : p.width = q.width) (hheight : p.height = q.height)
    (h : ∀ x y, p.at? x y = q.at? x y) : p = q := by
  have hpixels : p.pixels = q.pixels := by
    apply Array.ext_getElem?
    intro i
    by_cases hi : i < p.width * p.height
    · have hx : i % p.width < p.width :=
        Nat.mod_lt _ (Nat.pos_of_mul_pos_right (Nat.zero_lt_of_lt hi))
      have hy : i / p.width < p.height := Nat.div_lt_of_lt_mul hi
      have hplace := h (i % p.width : ℕ) (i / p.width : ℕ)
      rw [at?_natCast hx hy, at?_natCast (hwidth ▸ hx) (hheight ▸ hy), ← hwidth,
        Nat.div_add_mod'] at hplace
      exact hplace
    · rw [Array.getElem?_eq_none (by rw [p.size_eq]; omega),
        Array.getElem?_eq_none (by rw [q.size_eq, ← hwidth, ← hheight]; omega)]
  obtain ⟨width, height, pixels, hp⟩ := p
  obtain ⟨_, _, _, hq⟩ := q
  obtain rfl : width = _ := hwidth
  obtain rfl : height = _ := hheight
  obtain rfl : pixels = _ := hpixels
  rfl

/-- The picture laid at several offsets, one after the other. -/
def layAll (lay : (bottom top : Picture) → Offset → Picture) (top bottom : Picture)
    (offsets : List Offset) : Picture :=
  offsets.foldl (fun picture offset => lay picture top offset) bottom

/-- The opaque pixel that falls on a place last. -/
def lastOpaque? (top : Picture) (x y : ℤ) (offsets : List Offset) : Option Pixel :=
  offsets.reverse.findSome? fun offset => (top.falling? offset x y).filter (·.alpha = 255)

theorem lastOpaque?_append (x y : ℤ) (offsets later : List Offset) :
    top.lastOpaque? x y (offsets ++ later) =
      (top.lastOpaque? x y later).or (top.lastOpaque? x y offsets) := by
  rw [lastOpaque?, List.reverse_append, List.findSome?_append]
  rfl

/-- Going through the same offsets again changes nothing. -/
theorem lastOpaque?_flatten_replicate (x y : ℤ) (offsets : List Offset) {m : ℕ} (hm : 1 ≤ m) :
    top.lastOpaque? x y (List.replicate m offsets).flatten = top.lastOpaque? x y offsets := by
  induction m, hm using Nat.le_induction with
  | base => simp
  | succ m _ ih =>
    rw [List.replicate_succ, List.flatten_cons, lastOpaque?_append, ih, Option.or_self]

theorem lastOpaque?_flatMap_congr {α : Type} {x y : ℤ} {f g : α → List Offset} (as : List α)
    (h : ∀ a, top.lastOpaque? x y (f a) = top.lastOpaque? x y (g a)) :
    top.lastOpaque? x y (as.flatMap f) = top.lastOpaque? x y (as.flatMap g) := by
  induction as with
  | nil => rfl
  | cons a as ih =>
    rw [List.flatMap_cons, List.flatMap_cons, lastOpaque?_append, lastOpaque?_append, ih, h]

theorem lastOpaque?_offsets_insert {settings : Settings} {extra : Axis}
    (hx : extra.name ≠ settings.xAxis) (hy : extra.name ≠ settings.yAxis)
    (hextra : 1 ≤ extra.stride.length) (outer inner : List Axis) (x y : ℤ) :
    top.lastOpaque? x y (settings.offsets (outer ++ extra :: inner)) =
      top.lastOpaque? x y (settings.offsets (outer ++ inner)) := by
  rw [Settings.offsets_append, Settings.offsets_append]
  apply lastOpaque?_flatMap_congr
  intro c
  rw [Settings.innerOffsets_cons hx hy, lastOpaque?_flatten_replicate _ _ _ hextra]

theorem layAll_append_singleton (offsets : List Offset) (offset : Offset) :
    layAll lay top bottom (offsets ++ [offset]) =
      lay (layAll lay top bottom offsets) top offset := List.foldl_concat ..

theorem size_layAll (hlay : Overlays lay) (top bottom : Picture) (offsets : List Offset) :
    (layAll lay top bottom offsets).width = bottom.width ∧
      (layAll lay top bottom offsets).height = bottom.height := by
  induction offsets using List.reverseRecOn with
  | nil => exact ⟨rfl, rfl⟩
  | append_singleton offsets offset ih =>
    rw [layAll_append_singleton]
    exact ⟨(hlay.width_eq _ _ _).trans ih.1, (hlay.height_eq _ _ _).trans ih.2⟩

/-- A top picture of opaque and clear pixels shows the last opaque pixel at each place
that has one, and leaves the others as they were. -/
theorem at?_layAll (hlay : Overlays lay)
    (hpixels : ∀ pixel ∈ top.pixels, pixel.alpha = 0 ∨ pixel.alpha = 255)
    (offsets : List Offset) (x y : ℤ) :
    (layAll lay top bottom offsets).at? x y =
      (bottom.at? x y).map fun below => (top.lastOpaque? x y offsets).getD below := by
  induction offsets using List.reverseRecOn with
  | nil => exact Option.map_id'.symm
  | append_singleton offsets offset ih =>
    have hseen : top.lastOpaque? x y [offset] =
        (top.falling? offset x y).filter (·.alpha = 255) := by
      simp [lastOpaque?]
    rw [layAll_append_singleton, lastOpaque?_append, hseen]
    cases hpixel : top.falling? offset x y with
    | none => rw [hlay.beside _ _ _ x y hpixel, ih]; rfl
    | some pixel =>
      rcases hpixels pixel (mem_pixels_of_at? hpixel) with halpha | halpha
      · rw [hlay.unseen _ _ _ x y pixel hpixel halpha, ih]
        simp [Option.filter, halpha]
      · obtain ⟨hwidth, hheight⟩ := size_layAll hlay top bottom offsets
        by_cases hinside : (bottom.at? x y).isSome
        · obtain ⟨below, hbelow⟩ := Option.isSome_iff_exists.mp hinside
          rw [isSome_at?_iff, ← hwidth, ← hheight, ← isSome_at?_iff] at hinside
          rw [hlay.covering _ _ _ x y pixel hpixel halpha hinside, hbelow]
          simp [Option.filter, halpha]
        · have houtside : bottom.at? x y = none := by simpa using hinside
          rw [isSome_at?_iff, ← hwidth, ← hheight, ← hlay.width_eq _ top offset,
            ← hlay.height_eq _ top offset, ← isSome_at?_iff] at hinside
          rw [houtside]
          simpa using hinside

theorem Layered.eq_layAll {offsets : ℕ → Offset} {pictures : ℕ → Picture} {n : ℕ}
    (h : Layered lay top offsets pictures n) :
    pictures n = layAll lay top (pictures 0) ((List.range n).map offsets) := by
  induction n with
  | zero => rfl
  | succ n ih =>
    rw [h n n.lt_succ_self, ih fun k hk => h k (Nat.lt_succ_of_lt hk), List.range_succ,
      List.map_append, List.map_singleton, layAll_append_singleton]

end Picture

/-! ## Rendering with an extra axis -/

namespace Scene

variable {σ ι : Type} {s : Scene ι} {b : Backend σ ι} {settings : Settings} {state state' : σ}
  {result : Except Fault ℕ} {requests : List (Call ι)}

/-- Rendering was not cut short by a stamp that failed: its result is to be written, or
nothing was asked for, as an image is unknown. -/
def Unbroken (requests : List (Call ι)) : Prop :=
  requests = [] ∨ ∃ image path, .write image path ∈ requests

theorem unbroken_of_write (stamps : List (Call ι)) (image : ι) (path : String) :
    Unbroken (stamps ++ [.write image path]) :=
  .inr ⟨image, path, List.mem_append_right _ List.mem_cons_self⟩

/-- The images that rendering needs are there. -/
def Found (s : Scene ι) (settings : Settings) : Prop :=
  (s.images.get? settings.foreground).isSome ∧
    (s.initial?.or (s.images.get? settings.background)).isSome

theorem stampOffsets_stamps (settings : Settings) (foreground : ι) (images : ℕ → ι)
    (axes : List Axis) :
    stampOffsets ((List.range (gridSize axes)).map fun k =>
      stampOn settings foreground (images k) (coordinate axes k)) = settings.offsets axes := by
  rw [stampOffsets, List.filterMap_map, Settings.offsets, Axis.coordinates, List.map_map]
  exact congrFun List.filterMap_eq_map' (List.range (gridSize axes))

/-- Without its images a scene asks for nothing. -/
theorem requests_of_not_found (hfound : ¬ s.Found settings)
    (h : b.Makes (fun _ b => s.render b settings) state result state' requests) :
    requests = [] := by
  have hnone {fault : Fault} (hall : ∀ {τ : Type} (b : Backend τ ι),
      s.render b settings = Effect.ofExcept (.error fault)) : requests = [] := by
    simp only [hall] at h
    exact (h.unique (Backend.makes_ofExcept _)).2.2
  cases hforeground : s.images.get? settings.foreground with
  | none => exact hnone fun b => render_of_unknown b (imageNamed_of_none hforeground)
  | some foreground =>
    refine hnone fun b => render_of_no_backdrop b (imageNamed_of_some hforeground)
      (backdrop_of_none ?_)
    by_contra hbackground
    exact hfound ⟨by rw [hforeground]; rfl, Option.isSome_iff_ne_none.mpr hbackground⟩

/-- The offsets that rendering asks to be stamped, unless a stamp fails. -/
theorem stampOffsets_of_unbroken [Decidable (s.Found settings)]
    (h : b.Makes (fun _ b => s.render b settings) state result state' requests)
    (hunbroken : Unbroken requests) :
    stampOffsets requests = if s.Found settings then settings.offsets s.axes else [] := by
  split
  · next hfound =>
    obtain ⟨foreground, hforeground⟩ := Option.isSome_iff_exists.mp hfound.1
    obtain ⟨background, hbackground⟩ := Option.isSome_iff_exists.mp hfound.2
    obtain ⟨images, states, -, -, hrender⟩ := makes_render b state hforeground hbackground
    rcases hrender with ⟨k, -, fault, _, -, -, hmakes⟩ | ⟨-, _, _, -, hmakes⟩
    · -- a failing stamp is the last request, so nothing is written
      obtain rfl := (h.unique hmakes).2.2
      rcases hunbroken with hnil | ⟨image, path, hmem⟩
      · simp at hnil
      · obtain ⟨j, -, hj⟩ := List.mem_map.mp hmem
        simp [stampOn] at hj
    · obtain rfl := (h.unique hmakes).2.2
      rw [stampOffsets, List.filterMap_append]
      exact (List.append_nil _).trans (stampOffsets_stamps ..)
  · next hfound => rw [requests_of_not_found hfound h]; rfl

end Scene

namespace Painter

/-- The painter writes the foreground laid at all offsets. -/
theorem makes_render (s : Scene Picture) {settings : Settings} {foreground background : Picture}
    (root : String) (disk : Disk)
    (hforeground : s.images.get? settings.foreground = some foreground)
    (hbackground : s.initial?.or (s.images.get? settings.background) = some background)
    (hsize : settings.size? = none ∨
      settings.size? = some ⟨foreground.width, foreground.height⟩) :
    let image := Picture.layAll Picture.overlay foreground background (settings.offsets s.axes)
    ∃ stamps written disk', (∀ other path, .write other path ∉ stamps) ∧
      ((backend root).write image settings.out).perform disk = (written, disk') ∧
      (backend root).Makes (fun _ b => s.render b settings) disk
        (written.map fun _ => gridSize s.axes) disk' (stamps ++ [.write image settings.out]) := by
  intro image
  obtain ⟨images, disks, rfl, rfl, hrender⟩ :=
    Scene.makes_render (backend root) disk hforeground hbackground
  rcases hrender with ⟨k, -, fault, disk', -, hfails, -⟩ | ⟨hall, written, disk', hwrite, hmakes⟩
  · exact absurd (stampGives_eq hfails) (by simp)
  have himage : images (gridSize s.axes) = image := by
    rw [(layered_of_stamped hsize hall).eq_layAll, ← Function.comp_def, ← List.map_map]
    rfl
  have hdisk : ∀ k ≤ gridSize s.axes, disks k = disks 0 := by
    intro k hk
    induction k with
    | zero => rfl
    | succ k ih => exact (Prod.mk.inj (hall k hk)).2.symm.trans (ih (Nat.le_of_succ_le hk))
  rw [hdisk _ le_rfl, himage] at hwrite
  rw [himage] at hmakes
  refine ⟨_, written, disk', fun other path hmem => ?_, hwrite, hmakes⟩
  obtain ⟨k, -, hk⟩ := List.mem_map.mp hmem
  simp [Scene.stampOn] at hk

end Painter

namespace Scene

/-- An axis that gives no offset only repeats the stamps, wherever it is put among the
axes. If no stamp fails, every offset is stamped as many times as without the axis for
each of its values. If it has a value, the painter writes the same picture from a
foreground whose pixels are opaque or clear, which leaves the same disk. -/
theorem render_repeats {settings : Settings} {extra : Axis}
    (hx : extra.name ≠ settings.xAxis) (hy : extra.name ≠ settings.yAxis)
    (outer inner : List Axis) :
    (∀ (σ τ ι : Type) (s : Scene ι) (b : Backend σ ι) (b' : Backend τ ι) (state : σ) (state' : τ),
      s.axes = outer ++ inner →
      ∀ result after requests, b.Makes (fun _ b => s.render b settings) state
        result after requests → Unbroken requests →
      ∀ result' after' requests', b'.Makes (fun _ b =>
          { s with axes := outer ++ extra :: inner }.render b settings) state'
        result' after' requests' → Unbroken requests' →
      ∀ offset, (stampOffsets requests').count offset =
        extra.stride.length * (stampOffsets requests).count offset) ∧
    (1 ≤ extra.stride.length → Picture.Overlays Picture.overlay ∧
      ∀ (s : Scene Picture) (root : String) (disk : Disk) (foreground background : Picture),
        s.axes = outer ++ inner →
        s.images.get? settings.foreground = some foreground →
        s.initial?.or (s.images.get? settings.background) = some background →
        (settings.size? = none ∨
          settings.size? = some ⟨foreground.width, foreground.height⟩) →
        (∀ pixel ∈ foreground.pixels, pixel.alpha = 0 ∨ pixel.alpha = 255) →
        ∃ image stamps stamps' disk', ∃ written : Except Fault Unit,
          (∀ other path, .write other path ∉ stamps ++ stamps') ∧
          (Painter.backend root).Makes (fun _ b => s.render b settings) disk
            (written.map fun _ => gridSize (outer ++ inner)) disk'
            (stamps ++ [.write image settings.out]) ∧
          (Painter.backend root).Makes (fun _ b =>
              { s with axes := outer ++ extra :: inner }.render b settings) disk
            (written.map fun _ => gridSize (outer ++ extra :: inner)) disk'
            (stamps' ++ [.write image settings.out])) := by
  classical
  constructor
  · intro σ τ ι s b b' state state' haxes result after requests hmakes hunbroken
      result' after' requests' hmakes' hunbroken' offset
    rw [stampOffsets_of_unbroken hmakes hunbroken, stampOffsets_of_unbroken hmakes' hunbroken']
    by_cases hfound : s.Found settings
    · have hfound' : Found { s with axes := outer ++ extra :: inner } settings := hfound
      rw [if_pos hfound, if_pos hfound', haxes, Settings.count_offsets_insert hx hy]
    · have hfound' : ¬ Found { s with axes := outer ++ extra :: inner } settings := hfound
      rw [if_neg hfound, if_neg hfound']
      rfl
  · intro hextra
    have hlay := Picture.overlays_overlay
    refine ⟨hlay, ?_⟩
    intro s root disk foreground background haxes hforeground hbackground hsize hpixels
    have himage : Picture.layAll Picture.overlay foreground background
          (settings.offsets (outer ++ extra :: inner)) =
        Picture.layAll Picture.overlay foreground background
          (settings.offsets (outer ++ inner)) := by
      obtain ⟨hwidth, hheight⟩ := Picture.size_layAll hlay foreground background
        (settings.offsets (outer ++ inner))
      obtain ⟨hwidth', hheight'⟩ := Picture.size_layAll hlay foreground background
        (settings.offsets (outer ++ extra :: inner))
      apply Picture.ext_at? (hwidth'.trans hwidth.symm) (hheight'.trans hheight.symm)
      intro x y
      rw [Picture.at?_layAll hlay hpixels, Picture.at?_layAll hlay hpixels,
        Picture.lastOpaque?_offsets_insert hx hy hextra]
    obtain ⟨stamps, written, disk', hstamps, hwrite, hmakes⟩ :=
      Painter.makes_render s root disk hforeground hbackground hsize
    obtain ⟨stamps', written', disk'', hstamps', hwrite', hmakes'⟩ :=
      Painter.makes_render { s with axes := outer ++ extra :: inner } root disk
        hforeground hbackground hsize
    rw [haxes] at hwrite hmakes
    rw [himage] at hwrite' hmakes'
    obtain ⟨rfl, rfl⟩ := Prod.mk.inj (hwrite.symm.trans hwrite')
    refine ⟨_, stamps, stamps', disk', written, fun other path hmem => ?_, hmakes, hmakes'⟩
    exact (List.mem_append.mp hmem).elim (hstamps other path) (hstamps' other path)

/-- An axis of two values between the axes of overlapping stamps. -/
theorem render_repeats_between :
    let red : Pixel := ⟨255, 0, 0, 255⟩
    let blue : Pixel := ⟨0, 0, 255, 255⟩
    let foreground := Picture.generate 2 1 fun x _ => if x = 0 then red else blue
    let background := Picture.generate 3 2 fun _ _ => ⟨9, 9, 9, 9⟩
    let xs : Axis := ⟨"x", ⟨-1, 2, 1, by decide⟩⟩
    let ys : Axis := ⟨"y", ⟨0, 2, 1, by decide⟩⟩
    let extra : Axis := ⟨"again", ⟨7, 9, 1, by decide⟩⟩
    let s : Scene Picture := ⟨∅, (Table.insert ∅ "fg" foreground).insert "bg" background, none,
      [xs, ys]⟩
    extra.name ≠ "x" ∧ extra.name ≠ "y" ∧ 1 ≤ extra.stride.length ∧
      ∃ image stamps stamps' disk', ∃ written : Except Fault Unit,
        (Painter.backend ".").Makes (fun _ b => s.render b {}) {} (written.map fun _ => 6) disk'
          (stamps ++ [.write image "output.png"]) ∧
        (Painter.backend ".").Makes (fun _ b => { s with axes := [xs, extra, ys] }.render b {}) {}
          (written.map fun _ => 12) disk' (stamps' ++ [.write image "output.png"]) ∧
        (stampOffsets (stamps' ++ [.write image "output.png"])).count ⟨1, 0⟩ =
          2 * (stampOffsets (stamps ++ [.write image "output.png"])).count ⟨1, 0⟩ := by
  intro red blue foreground background xs ys extra s
  have hx : extra.name ≠ "x" := by decide
  have hy : extra.name ≠ "y" := by decide
  have hextra : extra.stride.length = 2 := by decide +kernel
  have hsize : gridSize [xs, ys] = 6 := by decide +kernel
  have hsize' : gridSize [xs, extra, ys] = 12 := by decide +kernel
  have hforeground : s.images.get? "fg" = some foreground := by simp [s]
  have hbackground : s.initial?.or (s.images.get? "bg") = some background := by simp [s]
  have hpixels : ∀ pixel ∈ foreground.pixels, pixel.alpha = 0 ∨ pixel.alpha = 255 := by
    decide +kernel
  obtain ⟨hcount, hpaint⟩ := @render_repeats {} extra hx hy [xs] [ys]
  obtain ⟨-, hpaint⟩ := hpaint (by omega)
  obtain ⟨image, stamps, stamps', disk', written, -, hmakes, hmakes'⟩ :=
    hpaint s "." {} foreground background rfl hforeground hbackground (.inl rfl) hpixels
  have hoffset := hcount Disk Disk Picture s _ _ _ _ rfl _ _ _ hmakes
    (unbroken_of_write stamps image _) _ _ _ hmakes' (unbroken_of_write stamps' image _) ⟨1, 0⟩
  rw [hextra] at hoffset
  simp only [List.singleton_append, hsize, hsize'] at hmakes hmakes'
  exact ⟨hx, hy, by omega, image, stamps, stamps', disk', written, hmakes, hmakes', hoffset⟩

end Scene
end StampGrid
