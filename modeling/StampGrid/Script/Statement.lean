import StampGrid.Text.Blank

/-!
# Statements

A script is read line by line. A line that begins with lowercase ASCII letters
is a statement: the letters are its command, the rest without the blanks in
front are its arguments. All other lines say nothing, but they count. One
carriage return at the end of a line belongs to the line ending.
-/
namespace StampGrid

open Text

structure Statement where
  /-- The number of the line, from 1. -/
  line : Nat
  command : String
  args : String
  deriving DecidableEq, Repr

namespace Statement

/-- A line without the carriage return that may end it. -/
def withoutReturn (cs : List Char) : List Char :=
  if cs.getLast? = some '\r' then cs.dropLast else cs

def ofLine? (line : Nat) (text : List Char) : Option Statement :=
  let cs := withoutReturn text
  let command := cs.takeWhile Char.isLower
  if command = [] then none
  else
    let args := trimStart (cs.dropWhile Char.isLower)
    some ⟨line, String.ofList command, String.ofList args⟩

/-- Puts one character before a text cut into lines. -/
def beforeLines (c : Char) (lines : List (List Char)) : List (List Char) :=
  if c = '\n' then [] :: lines
  else match lines with
    | [] => [[c]]
    | l :: ls => (c :: l) :: ls

/-- The physical lines of a text. A newline ends a line; text behind the last
newline is a line if there is any. -/
def lines (cs : List Char) : List (List Char) := cs.foldr beforeLines []

@[simp] theorem lines_nil : lines [] = [] := rfl

@[simp] theorem lines_cons_newline (cs : List Char) : lines ('\n' :: cs) = [] :: lines cs := rfl

/-- The statements on numbered lines, the first of which has the number `first`. -/
def ofLines (first : Nat) (ls : List (List Char)) : List Statement :=
  (ls.zipIdx first).filterMap fun (text, line) => ofLine? line text

def all (script : String) : List Statement := ofLines 1 (lines script.toList)

@[simp] theorem ofLines_nil (first : Nat) : ofLines first [] = [] := rfl

theorem ofLines_cons (first : Nat) (l : List Char) (ls : List (List Char)) :
    ofLines first (l :: ls) = (ofLine? first l).toList ++ ofLines (first + 1) ls := by
  simp only [ofLines, List.zipIdx_cons, List.filterMap_cons]
  cases ofLine? first l <;> rfl

theorem ofLines_append (first : Nat) (ls ms : List (List Char)) :
    ofLines first (ls ++ ms) = ofLines first ls ++ ofLines (first + ls.length) ms := by
  simp [ofLines, List.zipIdx_append, List.filterMap_append]

end Statement
end StampGrid
