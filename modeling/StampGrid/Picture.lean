/-!
# Pictures

A picture is a rectangle of pixels, stored row by row. A pixel has three colours
and an opacity, each of eight bits. Pictures without any pixel are pictures too.
-/
namespace StampGrid

structure Pixel where
  red : UInt8
  green : UInt8
  blue : UInt8
  /-- Opacity: 0 shows nothing, 255 hides what is behind. -/
  alpha : UInt8
  deriving DecidableEq, Repr, Inhabited

structure Picture where
  width : Nat
  height : Nat
  /-- Rows from the top, each from the left. -/
  pixels : Array Pixel
  size_eq : pixels.size = width * height
  deriving DecidableEq

namespace Picture

/-- The picture that has the pixel `f x y` in column `x` and row `y`. -/
def generate (width height : Nat) (f : Nat → Nat → Pixel) : Picture where
  width := width
  height := height
  pixels := Array.ofFn fun i : Fin (width * height) => f (i.val % width) (i.val / width)
  size_eq := Array.size_ofFn

def at? (p : Picture) (x y : Int) : Option Pixel :=
  if 0 ≤ x ∧ x < p.width ∧ 0 ≤ y ∧ y < p.height then
    p.pixels[y.toNat * p.width + x.toNat]?
  else none

@[simp] theorem generate_width (w h : Nat) (f : Nat → Nat → Pixel) :
    (generate w h f).width = w := rfl

@[simp] theorem generate_height (w h : Nat) (f : Nat → Nat → Pixel) :
    (generate w h f).height = h := rfl

theorem at?_eq_getElem? {p : Picture} {x y : Int}
    (h : 0 ≤ x ∧ x < p.width ∧ 0 ≤ y ∧ y < p.height) :
    p.at? x y = p.pixels[y.toNat * p.width + x.toNat]? := if_pos h

theorem at?_eq_none {p : Picture} {x y : Int}
    (h : ¬ (0 ≤ x ∧ x < p.width ∧ 0 ≤ y ∧ y < p.height)) : p.at? x y = none := if_neg h

/-- A generated picture shows its function inside and nothing outside. -/
theorem at?_generate (w h : Nat) (f : Nat → Nat → Pixel) (x y : Int) :
    (generate w h f).at? x y =
      if 0 ≤ x ∧ x < w ∧ 0 ≤ y ∧ y < h then some (f x.toNat y.toNat) else none := by
  by_cases hin : 0 ≤ x ∧ x < w ∧ 0 ≤ y ∧ y < h
  · rw [if_pos hin, at?_eq_getElem? (by rwa [generate_width, generate_height]), generate_width]
    obtain ⟨hx0, hxw, hy0, hyh⟩ := hin
    obtain ⟨i, rfl⟩ := Int.eq_ofNat_of_zero_le hx0
    obtain ⟨j, rfl⟩ := Int.eq_ofNat_of_zero_le hy0
    have hi : i < w := by omega
    have hj : j < h := by omega
    have hlt : j * w + i < w * h := by
      calc j * w + i < j * w + w := by omega
        _ = (j + 1) * w := by rw [Nat.add_mul, Nat.one_mul]
        _ ≤ h * w := Nat.mul_le_mul_right _ hj
        _ = w * h := Nat.mul_comm _ _
    have hw : 0 < w := by omega
    simp only [Int.toNat_natCast]
    rw [Array.getElem?_eq_getElem (by simpa [generate] using hlt)]
    simp [generate, Array.getElem_ofFn, Nat.add_comm (j * w), Nat.add_mul_mod_self_right,
      Nat.mod_eq_of_lt hi, Nat.add_mul_div_right _ _ hw, Nat.div_eq_of_lt hi]
  · rw [if_neg hin, at?_eq_none (by rwa [generate_width, generate_height])]

end Picture
end StampGrid
