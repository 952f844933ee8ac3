import StampGrid.Text.Numeral

/-!
# JSON documents

A document is printed in one of two layouts: compact, on one line and without
blanks, or spread out, with one entry a line and two blanks of indentation for
each level. Strings escape the double quote, the backslash and the control
characters below the blank, and nothing else.
-/
namespace StampGrid

open Text

inductive Json where
  | null
  | integer (value : Int)
  | text (value : String)
  | array (items : List Json)
  /-- Members in the order in which they are printed. -/
  | object (members : List (String × Json))
  deriving Inhabited

namespace Json

inductive Layout where
  | compact
  | spread
  deriving DecidableEq, Repr

namespace Layout

/-- What stands before an entry or a closing bracket on a line of this depth. -/
def line : Layout → Nat → List Char
  | compact, _ => []
  | spread, depth => '\n' :: List.replicate (2 * depth) ' '

/-- What stands between the name of a member and its value. -/
def colon : Layout → List Char
  | compact => [':']
  | spread => [':', ' ']

/-- What stands before an entry: a comma behind the entry before it, and the line. -/
def lead (layout : Layout) (first : Bool) (depth : Nat) : List Char :=
  (if first then [] else [',']) ++ layout.line depth

/-- Entries behind one that is there already. -/
def follow (layout : Layout) (depth : Nat) : List (List Char) → List Char
  | [] => []
  | entry :: rest => layout.lead false depth ++ entry ++ layout.follow depth rest

/-- Entries on lines of this depth, with commas between them. -/
def sequence (layout : Layout) (depth : Nat) : List (List Char) → List Char
  | [] => []
  | entry :: rest => layout.lead true depth ++ entry ++ layout.follow depth rest

/-- Entries between brackets, of which `depth` is the level of the brackets. -/
def enclose (layout : Layout) (depth : Nat) (opening closing : Char)
    (entries : List (List Char)) : List Char :=
  let ending := if entries = [] then [] else layout.line depth
  opening :: layout.sequence (depth + 1) entries ++ ending ++ [closing]

end Layout

def hexDigit (n : Nat) : Char := if n < 10 then Char.ofNat (48 + n) else Char.ofNat (87 + n)

/-- A character as it stands in a string. -/
def escape (c : Char) : List Char :=
  if c = '"' then ['\\', '"']
  else if c = '\\' then ['\\', '\\']
  else if c = '\x08' then ['\\', 'b']
  else if c = '\t' then ['\\', 't']
  else if c = '\n' then ['\\', 'n']
  else if c = '\x0c' then ['\\', 'f']
  else if c = '\r' then ['\\', 'r']
  else if c.toNat < 0x20 then
    ['\\', 'u', '0', '0', hexDigit (c.toNat / 16), hexDigit (c.toNat % 16)]
  else [c]

def quote (s : String) : List Char := '"' :: s.toList.flatMap escape ++ ['"']

mutual

/-- The text of a document whose first character stands at this depth. -/
def render (layout : Layout) (depth : Nat) : Json → List Char
  | null => ['n', 'u', 'l', 'l']
  | integer value => Numeral.ofInt value
  | text value => quote value
  | array items => layout.enclose depth '[' ']' (renderItems layout (depth + 1) items)
  | object members => layout.enclose depth '\x7b' '\x7d' (renderMembers layout (depth + 1) members)

def renderItems (layout : Layout) (depth : Nat) : List Json → List (List Char)
  | [] => []
  | item :: rest => render layout depth item :: renderItems layout depth rest

def renderMembers (layout : Layout) (depth : Nat) : List (String × Json) → List (List Char)
  | [] => []
  | (name, value) :: rest =>
    (quote name ++ layout.colon ++ render layout depth value) :: renderMembers layout depth rest

end

/-- A document on one line. -/
def compress (j : Json) : String := String.ofList (j.render .compact 0)

theorem renderItems_eq_map (layout : Layout) (depth : Nat) (items : List Json) :
    renderItems layout depth items = items.map (render layout depth) := by
  induction items with
  | nil => rfl
  | cons item rest ih => simp [renderItems, ih]

theorem renderMembers_eq_map (layout : Layout) (depth : Nat) (members : List (String × Json)) :
    renderMembers layout depth members =
      members.map fun m => quote m.1 ++ layout.colon ++ render layout depth m.2 := by
  induction members with
  | nil => rfl
  | cons m rest ih => simp [renderMembers, ih]

end Json
end StampGrid
