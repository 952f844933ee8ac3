import StampGrid.Backend
import StampGrid.Disk
import StampGrid.Picture.Overlay
import StampGrid.Picture.Resample

/-!
# Painting in memory

The painter loads pictures from the disk, lays them on each other itself and
writes the result back. Locators are looked up under a root folder, results are
written from the working directory. A file is a picture only if its name says so.

The disk knows one picture format. Libraries of formats read and write others as
well, by the endings of their names; here a path that names one of these is
refused as if it named none, also where such a library would have written to it.
-/
namespace StampGrid.Painter

/-- Whether a path names a file in the one picture format that there is. -/
def isPicturePath (path : String) : Bool :=
  (Path.extension? path).map (List.map Char.toLower) == some ['p', 'n', 'g']

def malformed (data : List UInt8) : List String :=
  if data.length < 4 then ["unexpected end of file"]
  else ["Format error decoding Png: Invalid PNG signature.", "Invalid PNG signature."]

def decode (d : Disk) (path : String) : Except (List String) Picture :=
  match d.find path with
  | .error refusal => .error [refusal.message]
  | .ok entry =>
    if !isPicturePath path then .error ["The image format could not be determined"]
    else match entry with
      | .folder => .error [Disk.Refusal.isAFolder.message]
      | .file (.octets data) => .error (malformed data)
      | .file (.picture image) => .ok image

/-- Writes a picture to a path whose folder is there. -/
def encode (d : Disk) (path : String) (image : Picture) : Except (List String) Disk :=
  if isPicturePath path then
    match d.writeFile path (.picture image) with
    | .ok d' => .ok d'
    | .error refusal => .error [refusal.message]
  else match Path.extension? path with
    | none => .error ["The image format could not be determined"]
    | some e =>
      .error [s!"The file extension `.\"{String.ofList e}\"` was not recognized as an image format"]

/-- The foreground as it is stamped: scaled if a size is given that it does not have. -/
def scaled (foreground : Picture) : Option Geometry → Picture
  | none => foreground
  | some size =>
    if foreground.width = size.width ∧ foreground.height = size.height then foreground
    else foreground.resample size.width size.height

def stamp (foreground background : Picture) (offset : Offset) (size? : Option Geometry) : Picture :=
  background.overlay (scaled foreground size?) offset

/-- The painter whose locators are looked up under `root`. -/
def backend (root : String) : Backend Disk Picture where
  load locator := fun d =>
    let path := Path.under root locator
    match decode d path with
    | .ok image => (.ok image, d)
    | .error causes => (.error (.other s!"decode image '{path}'" causes), d)
  composite foreground background offset size? := fun d =>
    (.ok (stamp foreground background offset size?), d)
  write image path := fun d =>
    match d.ensureParent path with
    | (.error fault, d') => (.error fault, d')
    | (.ok (), d') =>
      match encode d' path image with
      | .ok d'' => (.ok (), d'')
      | .error causes => (.error (.other s!"write image '{path}'" causes), d')

end StampGrid.Painter
