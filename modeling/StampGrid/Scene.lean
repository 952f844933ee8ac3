import StampGrid.Backend
import StampGrid.Draft
import StampGrid.Odometer

/-!
# Scenes

A scene is a draft with its images loaded. Names are looked up only when
something asks for them, so a missing name is a fault of the asking and not of
the scene.
-/
namespace StampGrid

structure Scene (ι : Type) where
  «variables» : Table String
  images : Table ι
  initial? : Option ι
  axes : List Axis

namespace Scene

def variableNamed {ι : Type} (s : Scene ι) (name : String) : Except Fault String :=
  match s.variables.get? name with
  | some value => .ok value
  | none => .error (.undefinedVariable name)

def imageNamed {ι : Type} (s : Scene ι) (name : String) : Except Fault ι :=
  match s.images.get? name with
  | some image => .ok image
  | none => .error (.unknownImage name)

def coordinates {ι : Type} (s : Scene ι) : Odometer := Odometer.start s.axes

def count? {ι : Type} (s : Scene ι) : Option Nat := Axis.count? s.axes

/-- Loads images in the order of the entries and binds them to their names. -/
def loadAll {σ ι : Type} (b : Backend σ ι) (loaded : Table ι) :
    List (String × String) → Effect σ (Table ι)
  | [] => pure loaded
  | (name, locator) :: rest => do
    let image ← b.load locator
    loadAll b (loaded.insert name image) rest

/-- Builds the scene of a draft: images in the order of their names, then the
image to start from. -/
def ofDraft {σ ι : Type} (b : Backend σ ι) (d : Draft) : Effect σ (Scene ι) := do
  let images ← loadAll b ∅ d.images.entries
  let initial? ← match d.initial? with
    | some locator => do
      let image ← b.load locator
      pure (some image)
    | none => pure none
  pure ⟨d.variables, images, initial?, d.axes⟩

end Scene
end StampGrid
