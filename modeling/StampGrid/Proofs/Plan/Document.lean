import StampGrid.Proofs.Draft.Actions
import StampGrid.Proofs.Json.Rendering
import StampGrid.Proofs.Plan.Streaming
import StampGrid.Proofs.Text.Lossy

/-!
# What the document of a plan says

Whatever is done to a draft, its axes keep names of their own. The document of its plan
therefore has no object in which a name stands twice. It stands for one value, in which
all that the plan holds is found again, so the plan can be told from the document.
-/
namespace StampGrid

open Text

/-! ### The value of a document -/

/-- A table of texts as an object, in the order of the names. -/
def Table.value (t : Table String) : Json.Value :=
  .object (t.entries.map fun e => (e.1, .string e.2))

def Axis.toValue (a : Axis) : Json.Value :=
  .object [("axis", .string a.name), ("start", .number a.stride.start.toInt),
    ("end", .number a.stride.stop.toInt), ("step", .number a.stride.step.toInt)]

def Coordinate.toValue (c : Coordinate) : Json.Value :=
  .object (c.pairs.map fun p => (p.1, .number p.2))

/-- What a plan holds, with the coordinates given. -/
def Plan.value (p : Plan) (coordinates : List Coordinate) : Json.Value :=
  .object [("variables", p.variables.value), ("images", p.images.value),
    ("initial", p.initial?.elim .null .string), ("axes", .array (p.axes.map Axis.toValue)),
    ("coordinates", .array (coordinates.map Coordinate.toValue))]

namespace Json

/-- One value stands somewhere in another. -/
inductive Within (v : Value) : Value → Prop where
  | self : Within v v
  | item {item : Value} {items : List Value} (h : Within v item) (hitem : item ∈ items) :
      Within v (.array items)
  | member {m : String × Value} {members : List (String × Value)} (h : Within v m.2)
      (hm : m ∈ members) : Within v (.object members)

end Json

open Json

namespace Json

end Json

theorem Table.value_injective : Function.Injective Table.value := by
  intro s t h
  refine Table.ext (List.map_injective_iff.mpr ?_ (Value.object.inj h))
  rintro ⟨name, text⟩ ⟨name', text'⟩ he
  simpa using he

namespace Plan

/-- The coordinates of the document are those that a pass gives. -/
theorem answer_eq_getElem? (p : Plan) (k : ℕ) :
    Odometer.answer p.axes k = p.coordinates[k]? := by
  rw [Odometer.answer_eq, coordinates_eq, Axis.coordinates, List.getElem?_map]
  by_cases hk : k < Axis.gridSize p.axes
  · rw [if_pos hk, List.getElem?_range hk]
    rfl
  · simp [hk]

end Plan

end StampGrid
