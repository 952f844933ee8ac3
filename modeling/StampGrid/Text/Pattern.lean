/-!
# Patterns

A pattern takes the characters of a text from the left and captures parts of them. The ways
in which it can do so at a place stand in the order of preference: a repetition would rather
take more characters than fewer, and of two patterns in a row the first one chooses first.
A search tries the places of a text from the left and keeps the first way that it meets.
-/
namespace StampGrid.Text

inductive Pattern where
  /-- Takes nothing, at the start of the text. -/
  | start
  /-- Takes nothing, at the end of the text. -/
  | stop
  /-- Takes one character of a class. -/
  | one (accepts : Char → Bool)
  /-- Takes any number of characters of a class, as many as it can. -/
  | many (accepts : Char → Bool)
  | row (p q : Pattern)
  | capture (p : Pattern)

namespace Pattern

instance : Append Pattern := ⟨row⟩

/-- Takes one or more characters of a class, as many as it can. -/
def several (accepts : Char → Bool) : Pattern := one accepts ++ many accepts

/-- One way to take characters: those taken, those left over, and the captured parts in the
order in which they begin. -/
structure Way where
  taken : List Char
  ahead : List Char
  captures : List (List Char)
  deriving DecidableEq, Repr

/-- The ways to take characters of a class, the longest run first. -/
def runs (accepts : Char → Bool) : List Char → List Way
  | [] => [⟨[], [], []⟩]
  | c :: cs =>
    if accepts c then
      (runs accepts cs).map (fun w => { w with taken := c :: w.taken }) ++ [⟨[], c :: cs, []⟩]
    else [⟨[], c :: cs, []⟩]

/-- The ways to go on behind the characters already passed, the preferred ones first. -/
def ways : Pattern → (passed ahead : List Char) → List Way
  | start, passed, cs => if passed = [] then [⟨[], cs, []⟩] else []
  | stop, _, cs => if cs = [] then [⟨[], [], []⟩] else []
  | one _, _, [] => []
  | one accepts, _, c :: cs => if accepts c then [⟨[c], cs, []⟩] else []
  | many accepts, _, cs => runs accepts cs
  | row p q, passed, cs =>
    (p.ways passed cs).flatMap fun v =>
      (q.ways (passed ++ v.taken) v.ahead).map fun w =>
        ⟨v.taken ++ w.taken, w.ahead, v.captures ++ w.captures⟩
  | capture p, passed, cs =>
    (p.ways passed cs).map fun w => { w with captures := w.taken :: w.captures }

/-- The first way at the leftmost place that has one. -/
def search (p : Pattern) (text : List Char) : Option Way :=
  (List.range (text.length + 1)).findSome? fun n => (p.ways (text.take n) (text.drop n)).head?

/-- The parts of a text that the pattern captures, if it is found. -/
def captures? (p : Pattern) (text : List Char) : Option (List (List Char)) :=
  (p.search text).map Way.captures

end Pattern
end StampGrid.Text
