/-!
# Paths

A path is a text whose segments are separated by slashes. Empty segments and
single dots mean nothing, except that a leading slash makes a path absolute and
a leading dot counts as a component of its own. Taking the parent of a path
keeps the spelling of what remains.
-/
namespace StampGrid.Path

/-- Puts one character before a text cut at its slashes. -/
def beforeSegments (c : Char) : List (List Char) → List (List Char)
  | [] => [[c]]
  | s :: ss => if c = '/' then [] :: s :: ss else (c :: s) :: ss

/-- The texts between the slashes; there is always at least one. -/
def segments (cs : List Char) : List (List Char) := cs.foldr beforeSegments [[]]

def unsplit (ss : List (List Char)) : List Char := ['/'].intercalate ss

/-- The name of the folder that holds the folder. -/
def up : List Char := ['.', '.']

/-- Whether a segment changes nothing about where a path leads. -/
def isIdle (s : List Char) : Bool := s == [] || s == ['.']

/-- A path as its components: whether it is absolute, and its segments up to the
last that is a component. -/
structure Components where
  absolute : Bool
  body : List (List Char)
  deriving DecidableEq, Repr

namespace Components

/-- Whether segments from `index` on start with a component. -/
def isComponent (absolute : Bool) (index : Nat) (s : List Char) : Bool :=
  !isIdle s || (s == ['.'] && index == 0 && !absolute)

/-- Drops the segments behind the last component. -/
def trimmed (absolute : Bool) (ss : List (List Char)) : Components :=
  ⟨absolute, ((ss.zipIdx.reverse.dropWhile fun (s, i) => !isComponent absolute i s).reverse).map
    Prod.fst⟩

def ofPath : List Char → Components
  | '/' :: cs => trimmed true (segments cs)
  | cs => trimmed false (segments cs)

def toPath (c : Components) : String :=
  String.ofList ((if c.absolute then ['/'] else []) ++ unsplit c.body)

def parent? (c : Components) : Option Components :=
  if c.body = [] then none else some (trimmed c.absolute c.body.dropLast)

end Components

/-- The path without its last component, if it has one. -/
def parent? (path : String) : Option String :=
  (Components.ofPath path.toList).parent?.map Components.toPath

/-- The parents of some components, the nearest first, as far as they have a
name. At most `fuel` are given. -/
def namedParents : Nat → Components → List String
  | 0, _ => []
  | fuel + 1, c =>
    match c.parent? with
    | none => []
    | some p => if p.body = [] then [] else p.toPath :: namedParents fuel p

/-- The last component, if it names an entry. -/
def fileName? (path : String) : Option (List Char) :=
  match (Components.ofPath path.toList).body.getLast? with
  | some s => if s = up ∨ s = ['.'] then none else some s
  | none => none

/-- What stands behind the last dot of the file name. A dot at its front does not count. -/
def extension? (path : String) : Option (List Char) :=
  match fileName? path with
  | none => none
  | some name =>
    let behind := (name.reverse.takeWhile (· ≠ '.')).reverse
    if behind.length + 1 < name.length then some behind else none

/-- The path of a locator under a root. An absolute locator stands for itself. -/
def under (root locator : String) : String :=
  match root.toList.getLast?, locator.toList with
  | _, '/' :: _ => locator
  | none, _ => locator
  | some c, _ => if c = '/' then root ++ locator else root ++ "/" ++ locator

end StampGrid.Path
