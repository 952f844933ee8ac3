import StampGrid.Text.Blank
import StampGrid.Text.Numeral

/-!
# Places and sizes of stamps

A stamp is placed at an offset from the top left corner of what it is stamped
on, and may be scaled to a size before. Sizes are written as two positive
numbers of 32 bits with a letter x between them.
-/
namespace StampGrid

open Text

/-- A place, in pixels to the right and downwards. -/
structure Offset where
  x : Int
  y : Int
  deriving DecidableEq, Repr

structure Geometry where
  width : Nat
  height : Nat
  deriving DecidableEq, Repr

namespace Geometry

inductive Malformed where
  | noSeparator (text : String)
  /-- The part on one side of the x is no positive number of 32 bits. -/
  | badDimension (part text : String)
  deriving DecidableEq, Repr

def Malformed.message : Malformed → String
  | noSeparator text => s!"expected WIDTHxHEIGHT, got '{text}'"
  | badDimension part text => s!"invalid dimension '{part}' in '{text}'"

def isSeparator (c : Char) : Bool := c == 'x' || c == 'X'

/-- Reads a positive number of 32 bits with blanks around it. -/
def dimension? (part : List Char) : Option Nat :=
  (Numeral.unsignedBelow? UInt32.size (trim part)).filter (0 < ·)

/-- Reads a size. The first x separates; of two bad parts the left one is named. -/
def parse (text : String) : Except Malformed Geometry :=
  let cs := text.toList
  let left := cs.takeWhile fun c => !isSeparator c
  match cs.dropWhile fun c => !isSeparator c with
  | [] => .error (.noSeparator text)
  | _ :: right =>
    match dimension? left, dimension? right with
    | none, _ => .error (.badDimension (String.ofList left) text)
    | some _, none => .error (.badDimension (String.ofList right) text)
    | some width, some height => .ok ⟨width, height⟩

/-- A size and place as one argument of a compositing program: the size if there
is one, then both coordinates with their signs. -/
def argument (offset : Offset) (size? : Option Geometry) : String :=
  let size := match size? with
    | some g => Numeral.digits g.width ++ 'x' :: Numeral.digits g.height
    | none => []
  String.ofList (size ++ Numeral.signed offset.x ++ Numeral.signed offset.y)

end Geometry
end StampGrid
