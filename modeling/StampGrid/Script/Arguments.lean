import StampGrid.Axis
import StampGrid.Script.Keyword
import StampGrid.Text.Blank

/-!
# The arguments of each command

What a command says is read from its argument text alone: a quoted assignment,
an axis with three numbers, a named path, or a path. Paths may be broken by
blanks, which do not belong to them.
-/
namespace StampGrid.Arguments

open Text

def isNameChar (c : Char) : Bool := c.isAlphanum || c == '_'

/-- A name of a variable: an ASCII letter, then letters, digits and underscores. -/
def isName (cs : List Char) : Bool :=
  match cs with
  | [] => false
  | c :: rest => c.isAlpha && rest.all isNameChar

/-- A value of a variable: not empty, and on one line. -/
def isValue (cs : List Char) : Bool := cs ≠ [] && !cs.contains '\n'

/-- Reads `NAME="VALUE"` with blanks behind it. The last quote ends the value, so
a value may hold quotes. -/
def assignment? (args : String) : Option (String × String) :=
  let cs := trimEnd args.toList
  let name := cs.takeWhile isNameChar
  match cs.dropWhile isNameChar with
  | '=' :: '"' :: rest =>
    let value := rest.dropLast
    if isName name && rest.getLast? == some '"' && isValue value then
      some (String.ofList name, String.ofList value)
    else none
  | _ => none

def integer (word : List Char) : Except Fault Int64 :=
  match Numeral.int64? word with
  | some v => .ok v
  | none => .error (.notAnInteger (String.ofList word))

/-- Reads an axis: a name, a start, a stop and a step that is not zero. Further
words are ignored. -/
def axis (args : String) : Except Fault Axis :=
  match words args.toList with
  | name :: first :: second :: third :: _ => do
    let start ← integer first
    let stop ← integer second
    let step ← integer third
    if h : step = 0 then .error (.zeroStep (String.ofList name))
    else .ok ⟨String.ofList name, ⟨start, stop, step, h⟩⟩
  | ws => .error (.tooFewArguments Keyword.range.name 4 ws.length)

/-- Reads a name and the path behind it. -/
def image (args : String) : Except Fault (String × String) :=
  match words args.toList with
  | name :: first :: rest => .ok (String.ofList name, String.ofList (first :: rest).flatten)
  | ws => .error (.tooFewArguments Keyword.img.name 2 ws.length)

def path (args : String) : String := String.ofList (words args.toList).flatten

end StampGrid.Arguments
