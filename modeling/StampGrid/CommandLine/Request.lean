import StampGrid.Geometry
import StampGrid.Script.Reader

/-!
# What a command line asks for

A command line names one of two subcommands. Flags stand anywhere behind it, and
take their value from the same word behind an equals sign or from the next word;
a next word that looks like a flag is no value. Each flag with a value is given
at most once. Words are taken in order: the first that does not fit refuses the
command line, and a request for help or for the version is granted at once.
-/
namespace StampGrid.CommandLine

open Text

inductive Choice where
  | magick
  | raster
  deriving DecidableEq, Repr

def Choice.ofName? (name : String) : Option Choice :=
  if name = "magick" then some magick else if name = "raster" then some raster else none

/-- What both subcommands take. -/
structure ScriptOptions where
  /-- Where the script is; without it, the standard input. -/
  script? : Option String := none
  /-- The most octets of the script read at once. -/
  chunkSize? : Option Nat := none
  deriving DecidableEq, Repr

structure RunOptions extends ScriptOptions where
  out? : Option String := none
  backend? : Option Choice := none
  foreground? : Option String := none
  background? : Option String := none
  size? : Option Geometry := none
  program? : Option String := none
  deriving DecidableEq, Repr

inductive Request where
  | run (options : RunOptions)
  | plan (options : ScriptOptions)
  | version
  | help
  deriving DecidableEq, Repr

/-- The meaning of one word. -/
inductive Word where
  /-- A flag that is spelled out, with the value in the same word if there is one. -/
  | long (name : List Char) (value? : Option (List Char))
  /-- Letters of flags behind one dash. -/
  | letters (cs : List Char)
  /-- From here on no word is a flag. -/
  | separator
  | plain (text : String)
  deriving DecidableEq, Repr

def Word.ofString (s : String) : Word :=
  match s.toList with
  | ['-', '-'] => .separator
  | '-' :: '-' :: cs =>
    match cs.dropWhile (· ≠ '=') with
    | [] => .long cs none
    | _ :: value => .long (cs.takeWhile (· ≠ '=')) (some value)
  | '-' :: c :: cs => .letters (c :: cs)
  | _ => .plain s

/-- What a word that is not an option of a subcommand leads to. -/
inductive Step where
  | goOn
  | grant (request : Request)
  | refuse
  deriving DecidableEq, Repr

/-- Takes letters in order. The letter for more messages changes nothing. -/
def stepLetters (versioned : Bool) : List Char → Step
  | [] => .goOn
  | 'v' :: cs => stepLetters versioned cs
  | 'h' :: _ => .grant .help
  | 'V' :: _ => if versioned then .grant .version else .refuse
  | _ => .refuse

/-- Takes a flag that is spelled out and known everywhere. The version is known
only before the subcommand. -/
def stepLong (versioned : Bool) (name : List Char) (value? : Option (List Char)) : Step :=
  if value? ≠ none then .refuse
  else if name = "verbose".toList then .goOn
  else if name = "help".toList then .grant .help
  else if versioned ∧ name = "version".toList then .grant .version
  else .refuse

/-- A path given as a value is not empty. -/
def pathValue? (value : List Char) : Option String :=
  if value = [] then none else some (String.ofList value)

def sizeValue? (value : List Char) : Option Nat := Numeral.unsignedBelow? UInt64.size value

/-- Fills a place that is still empty. -/
def fill {α : Type} (slot : Option α) (value? : Option α) : Option (Option α) :=
  match slot, value? with
  | none, some value => some (some value)
  | _, _ => none

/-- A subcommand: its options, how a flag fills one of them, and how the script is given. -/
structure Grammar (ω : Type) where
  /-- Whether a flag takes a value. -/
  takesValue : (name : List Char) → Bool
  /-- Fills the option of a flag; nothing if the value does not fit or was given before. -/
  set? : ω → (name value : List Char) → Option ω
  script? : ω → Option String
  withScript : ω → String → ω
  request : ω → Request

namespace Grammar

/-- Takes a word that is no flag: it is the path of the script. -/
def place? {ω : Type} (g : Grammar ω) (options : ω) (text : String) : Option ω :=
  match g.script? options, pathValue? text.toList with
  | none, some path => some (g.withScript options path)
  | _, _ => none

/-- Takes words none of which is a flag. -/
def readPlain {ω : Type} (g : Grammar ω) (options : ω) : List String → Option Request
  | [] => some (g.request options)
  | text :: rest =>
    match g.place? options text with
    | some options' => g.readPlain options' rest
    | none => none

/-- Takes the words behind a subcommand. -/
def read {ω : Type} (g : Grammar ω) (options : ω) : List String → Option Request
  | [] => some (g.request options)
  | word :: rest =>
    match Word.ofString word with
    | .separator => g.readPlain options rest
    | .plain text =>
      match g.place? options text with
      | some options' => g.read options' rest
      | none => none
    | .letters cs =>
      match stepLetters false cs with
      | .goOn => g.read options rest
      | .grant request => some request
      | .refuse => none
    | .long name value? =>
      if g.takesValue name then
        match value? with
        | some value =>
          match g.set? options name value with
          | some options' => g.read options' rest
          | none => none
        | none =>
          match rest with
          | [] => none
          | next :: rest' =>
            match Word.ofString next with
            | .plain text =>
              match g.set? options name text.toList with
              | some options' => g.read options' rest'
              | none => none
            | _ => none
      else
        match stepLong false name value? with
        | .goOn => g.read options rest
        | .grant request => some request
        | .refuse => none

end Grammar

def chunkFlag : List Char := "chunk-size".toList

def planGrammar : Grammar ScriptOptions where
  takesValue name := name = chunkFlag
  set? options _ value :=
    (fill options.chunkSize? (sizeValue? value)).map fun chunkSize? => { options with chunkSize? }
  script? := ScriptOptions.script?
  withScript options path := { options with script? := some path }
  request := .plan

/-- The flags that only rendering knows. -/
inductive RunFlag where
  | out
  | backend
  | foreground
  | background
  | size
  | program
  deriving DecidableEq, Repr

namespace RunFlag

def all : List RunFlag := [out, backend, foreground, background, size, program]

def name : RunFlag → List Char
  | out => "out".toList
  | backend => "backend".toList
  | foreground => "fg".toList
  | background => "bg".toList
  | size => "size".toList
  | program => "magick".toList

def ofName? (name : List Char) : Option RunFlag := all.find? fun f => f.name = name

def set? (f : RunFlag) (options : RunOptions) (value : List Char) : Option RunOptions :=
  let text := String.ofList value
  match f with
  | out => (fill options.out? (pathValue? value)).map fun out? => { options with out? }
  | backend => (fill options.backend? (Choice.ofName? text)).map fun backend? =>
      { options with backend? }
  | foreground => (fill options.foreground? (some text)).map fun foreground? =>
      { options with foreground? }
  | background => (fill options.background? (some text)).map fun background? =>
      { options with background? }
  | size => (fill options.size? (Geometry.parse text).toOption).map fun size? =>
      { options with size? }
  | program => (fill options.program? (pathValue? value)).map fun program? =>
      { options with program? }

end RunFlag

def runGrammar : Grammar RunOptions where
  takesValue name := name = chunkFlag || (RunFlag.ofName? name).isSome
  set? options name value :=
    match RunFlag.ofName? name with
    | some f => f.set? options value
    | none => (fill options.chunkSize? (sizeValue? value)).map fun chunkSize? =>
        { options with chunkSize? }
  script? options := options.script?
  withScript options path := { options with script? := some path }
  request := .run

/-- Whether the words behind `help` name at most one subcommand. -/
def helpTopic (topics : List String) : Bool :=
  topics = [] ∨ topics ∈ [["run"], ["plan"], ["help"]]

/-- The request of a command line, unless it is refused. -/
def Request.ofArgs? : List String → Option Request
  | [] => none
  | word :: rest =>
    match Word.ofString word with
    | .separator => none
    | .plain text =>
      if text = "run" then runGrammar.read {} rest
      else if text = "plan" then planGrammar.read {} rest
      else if text = "help" ∧ helpTopic rest then some .help
      else none
    | .letters cs =>
      match stepLetters true cs with
      | .goOn => Request.ofArgs? rest
      | .grant request => some request
      | .refuse => none
    | .long name value? =>
      match stepLong true name value? with
      | .goOn => Request.ofArgs? rest
      | .grant request => some request
      | .refuse => none

end StampGrid.CommandLine
