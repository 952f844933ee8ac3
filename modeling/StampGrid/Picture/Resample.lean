import StampGrid.Picture

/-!
# Scaling a picture

A picture is scaled by a triangular filter, first along its columns and then
along its rows, with numbers of single precision between the passes. A pixel of
the result is the weighted mean of the pixels whose distance to its centre is
below one pixel of the coarser of the two grids.
-/
namespace StampGrid.Picture

/-- A pixel between the passes; channels are not rounded. -/
structure Sample where
  red : Float32
  green : Float32
  blue : Float32
  alpha : Float32
  deriving Inhabited

namespace Sample

def ofPixel (p : Pixel) : Sample :=
  ⟨p.red.toFloat32, p.green.toFloat32, p.blue.toFloat32, p.alpha.toFloat32⟩

def plus (s t : Sample) (weight : Float32) : Sample :=
  ⟨s.red + t.red * weight, s.green + t.green * weight, s.blue + t.blue * weight,
    s.alpha + t.alpha * weight⟩

/-- The nearest channel value; halves go away from zero. -/
def nearest (value : Float32) : UInt8 :=
  (if value < 0 then 0 else if 255 < value then 255 else value).round.toUInt8

def toPixel (s : Sample) : Pixel :=
  ⟨nearest s.red, nearest s.green, nearest s.blue, nearest s.alpha⟩

end Sample

def triangle (t : Float32) : Float32 := if t.abs < 1 then 1 - t.abs else 0

/-- What a place of the result is made of: the first place that counts and the
weights from there on. -/
structure Taps where
  first : Nat
  weights : List Float32

/-- The taps of place `out` when `n` places are scaled to `m`. -/
def Taps.at (n m out : Nat) : Taps :=
  let ratio := Float32.ofNat n / Float32.ofNat m
  let scale : Float32 := if ratio < 1 then 1 else ratio
  let centre := (Float32.ofNat out + 0.5) * ratio
  let left := min (max (centre - scale).floor.toInt64.toInt 0) (n - 1)
  let right := min (max (centre + scale).ceil.toInt64.toInt (left + 1)) n
  let centre := centre - 0.5
  let raw := (List.range (right - left).toNat).map fun i =>
    triangle ((Float32.ofNat (left.toNat + i) - centre) / scale)
  let sum := raw.foldl (· + ·) 0
  ⟨left.toNat, raw.map (· / sum)⟩

/-- The weighted sum of the samples that the taps take from a line. -/
def Taps.sum (taps : Taps) (line : Nat → Sample) : Sample :=
  (taps.weights.foldl
    (fun (total, i) weight => (total.plus (line i) weight, i + 1))
    ((⟨0, 0, 0, 0⟩ : Sample), taps.first)).1

def resample (p : Picture) (width height : Nat) : Picture :=
  if p.width = 0 ∨ p.height = 0 then generate width height fun _ _ => default
  else
    let columns := Array.ofFn fun y : Fin height => Taps.at p.height height y
    let tall : Array Sample := Array.ofFn fun i : Fin (p.width * height) =>
      (columns[i.val / p.width]?.getD ⟨0, []⟩).sum fun y =>
        Sample.ofPixel (p.pixels[y * p.width + i.val % p.width]?.getD default)
    let rows := Array.ofFn fun x : Fin width => Taps.at p.width width x
    generate width height fun x y =>
      ((rows[x]?.getD ⟨0, []⟩).sum fun i => tall[y * p.width + i]?.getD default).toPixel

end StampGrid.Picture
