import StampGrid.Draft
import StampGrid.Json
import StampGrid.Odometer

/-!
# Plans

A plan shows what a draft declares, without touching an image: the variables,
the image locators, where it starts from, the axes and all coordinates. Its
document is an object with these five members in this order.
-/
namespace StampGrid

def Stride.members (s : Stride) : List (String × Json) :=
  [("start", .integer s.start.toInt), ("end", .integer s.stop.toInt),
    ("step", .integer s.step.toInt)]

def Stride.toJson (s : Stride) : Json := .object s.members

def Axis.toJson (a : Axis) : Json := .object (("axis", .text a.name) :: a.stride.members)

def Coordinate.toJson (c : Coordinate) : Json :=
  .object (c.pairs.map fun (name, value) => (name, .integer value))

def Table.toJson (t : Table String) : Json :=
  .object (t.entries.map fun (name, value) => (name, .text value))

structure Plan where
  «variables» : Table String
  images : Table String
  initial? : Option String
  axes : List Axis

def Draft.plan (d : Draft) : Plan := ⟨d.variables, d.images, d.initial?, d.axes⟩

namespace Plan

def coordinates (p : Plan) : List Coordinate :=
  ((Odometer.start p.axes).take (Axis.gridSize p.axes)).1

/-- The members in front of the coordinates. -/
def members (p : Plan) : List (String × Json) :=
  [("variables", p.variables.toJson), ("images", p.images.toJson),
    ("initial", match p.initial? with | some locator => .text locator | none => .null),
    ("axes", .array (p.axes.map Axis.toJson))]

def toJson (p : Plan) : Json :=
  .object (p.members ++ [("coordinates", .array (p.coordinates.map Coordinate.toJson))])

end Plan
end StampGrid
