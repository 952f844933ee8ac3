/-!
# Keywords

The commands that a script can give form a closed set. Every other command is
unknown, however close its spelling.
-/
namespace StampGrid

inductive Keyword where
  /-- `var NAME="VALUE"` binds a variable. -/
  | var
  /-- `range AXIS START STOP STEP` declares an axis. -/
  | range
  /-- `img NAME PATH` names an image. -/
  | img
  /-- `miff PATH` sets the image to start from. -/
  | miff
  deriving DecidableEq, Repr

namespace Keyword

/-- All keywords, in the order in which they are documented. -/
def all : List Keyword := [var, range, img, miff]

def name : Keyword → String
  | var => "var"
  | range => "range"
  | img => "img"
  | miff => "miff"

def ofName? (name : String) : Option Keyword := all.find? fun k => k.name = name

@[simp] theorem ofName?_name (k : Keyword) : ofName? k.name = some k := by cases k <;> rfl

theorem name_of_ofName? {name : String} {k : Keyword} (h : ofName? name = some k) :
    k.name = name := by simpa using List.find?_some h

end Keyword
end StampGrid
