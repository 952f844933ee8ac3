import StampGrid.Script.Statement

/-!
# Scanning a script that arrives in pieces

A scanner is fed pieces of text that may end anywhere. It keeps the text of the
line that is not ended yet and gives a statement as soon as the newline of its
line has come. Finishing ends an open line as if a newline had followed; the
scanner can be fed again afterwards.
-/
namespace StampGrid

structure Scanner where
  /-- Text behind the last newline. -/
  pending : String := ""
  lines : Nat := 0
  deriving DecidableEq, Repr

namespace Scanner

/-- The part of a text behind its last newline: all of it if it has none. -/
def openPart (cs : List Char) : List Char :=
  (cs.reverse.takeWhile fun c => c ≠ '\n').reverse

/-- The part of a text up to its last newline: nothing if it has none. -/
def endedPart (cs : List Char) : List Char :=
  (cs.reverse.dropWhile fun c => c ≠ '\n').reverse

/-- Takes a piece of text; gives the statements that it completes, in order. Only
the piece itself is searched for newlines, since pending text has none. -/
def feed (s : Scanner) (text : String) : List Statement × Scanner :=
  let ended := endedPart text.toList
  if ended = [] then ([], { s with pending := s.pending ++ text })
  else
    let lines := Statement.lines (s.pending.toList ++ ended)
    (Statement.ofLines (s.lines + 1) lines,
      ⟨String.ofList (openPart text.toList), s.lines + lines.length⟩)

/-- Ends the line that the text stopped in, if any. -/
def finish (s : Scanner) : Option Statement × Scanner :=
  if s.pending = "" then (none, s)
  else (Statement.ofLine? (s.lines + 1) s.pending.toList, ⟨"", s.lines + 1⟩)

def scan (script : String) : List Statement × Scanner :=
  let (found, s) := feed {} script
  let (last, s) := s.finish
  (found ++ last.toList, s)

end Scanner
end StampGrid
