import StampGrid.Draft
import StampGrid.Script.Reader

/-!
# Drafts from scripts

A script is carried out statement by statement while it is read. The first fault
ends it, and then nothing more is read.
-/
namespace StampGrid

namespace Draft

def read (d : Draft) (r : Reader) : Except Fault Draft × Reader :=
  match _h : r.next? with
  | (none, r') => (.ok d, r')
  | (some (.error fault), r') => (.error fault, r')
  | (some (.ok s), r') =>
    match d.run s with
    | (.ok (), d') => d'.read r'
    | (.error fault, _) => (.error fault, r')
termination_by (r.weight, r.ready.length)
decreasing_by exact Reader.lt_of_next? _h

def ofSource (source : Source) (limit : Nat) : Except Fault Draft :=
  (read {} (Reader.ofSource source limit)).1

/-- The draft that a script in memory describes. -/
def ofString (script : String) : Except Fault Draft :=
  ofSource (.ofOctets (Text.Utf8.encode script.toList)) Reader.defaultLimit

end Draft
end StampGrid
