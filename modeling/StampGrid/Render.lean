import StampGrid.Scene

/-!
# Rendering a scene

Rendering stamps the foreground on the background at every coordinate of the
scene, in order, each stamp on the result of the one before it, and writes the
last result once. Two axes give the offset of a stamp; other axes repeat it.
-/
namespace StampGrid

structure Settings where
  /-- The name of the image that is stamped. -/
  foreground : String := "fg"
  /-- The name of the image stamped on, unless the scene says where to start. -/
  background : String := "bg"
  out : String := "output.png"
  size? : Option Geometry := none
  xAxis : String := "x"
  yAxis : String := "y"
  deriving DecidableEq, Repr

namespace Settings

def ofScene {ι : Type} (s : Scene ι) : Except Fault Settings :=
  let defaults : Settings := {}
  let settings : Settings :=
    { foreground := (s.variables.get? "foreground").getD defaults.foreground
      background := (s.variables.get? "background").getD defaults.background
      out := (s.variables.get? "output").getD defaults.out }
  match s.variables.get? "size" with
  | none => .ok settings
  | some text =>
    match Geometry.parse text with
    | .ok size => .ok { settings with size? := some size }
    | .error malformed => .error (.other s!"variable 'size': {malformed.message}" [])

/-- Where the stamp of a coordinate goes. A missing axis counts as zero. -/
def offset (settings : Settings) (c : Coordinate) : Offset :=
  ⟨(c.get? settings.xAxis).getD 0, (c.get? settings.yAxis).getD 0⟩

end Settings

namespace Scene

/-- Stamps the foreground once more and counts the stamp. -/
def stamp {σ ι : Type} (b : Backend σ ι) (settings : Settings) (foreground : ι)
    (done : ι × Nat) (c : Coordinate) : Effect σ (ι × Nat) := do
  let image ← b.composite foreground done.1 (settings.offset c) settings.size?
  pure (image, done.2 + 1)

/-- The image that the stamps start from. -/
def backdrop {ι : Type} (s : Scene ι) (settings : Settings) : Except Fault ι :=
  match s.initial? with
  | some image => .ok image
  | none => s.imageNamed settings.background

/-- Renders a scene; gives the number of stamps. -/
def render {σ ι : Type} (s : Scene ι) (b : Backend σ ι) (settings : Settings) : Effect σ Nat := do
  let foreground ← Effect.ofExcept (s.imageNamed settings.foreground)
  let background ← Effect.ofExcept (s.backdrop settings)
  let (image, stamps) ← s.coordinates.foldM (stamp b settings foreground) (background, 0)
  b.write image settings.out
  pure stamps

end Scene
end StampGrid
