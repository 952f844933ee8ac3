import StampGrid.Geometry
import StampGrid.Picture

/-!
# Laying a picture on a picture

The pixels of the top picture fall on the bottom picture at an offset; what
falls outside is lost. A pixel without opacity leaves what it falls on, a fully
opaque one replaces it, and any other is blended with it in proportion to the
opacities, in single precision.
-/
namespace StampGrid

namespace Pixel

/-- An eight bit channel as a number from 0 to 1. -/
def unit (channel : UInt8) : Float32 := channel.toFloat32 / 255

/-- The eight bit channel below a number from 0 to 1. -/
def channel (value : Float32) : UInt8 := (255 * value).toUInt8

/-- The pixel seen where `top` falls on `bottom` and neither hides nor vanishes. -/
def mix (bottom top : Pixel) : Pixel :=
  let below := unit bottom.alpha
  let above := unit top.alpha
  let alpha := below + above - below * above
  if alpha == 0 then bottom
  else
    let colour (b t : UInt8) : UInt8 :=
      channel ((unit t * above + unit b * below * (1 - above)) / alpha)
    ⟨colour bottom.red top.red, colour bottom.green top.green, colour bottom.blue top.blue,
      channel alpha⟩

def blend (bottom top : Pixel) : Pixel :=
  if top.alpha = 0 then bottom
  else if top.alpha = 255 then top
  else mix bottom top

end Pixel

namespace Picture

/-- Lays `top` on `bottom` with its top left corner at the offset. -/
def overlay (bottom top : Picture) (offset : Offset) : Picture :=
  generate bottom.width bottom.height fun x y =>
    let below := (bottom.at? x y).getD default
    match top.at? (x - offset.x) (y - offset.y) with
    | some above => below.blend above
    | none => below

end Picture
end StampGrid
