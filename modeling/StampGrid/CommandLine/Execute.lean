import StampGrid.Backend.Magick
import StampGrid.Backend.Painter
import StampGrid.CommandLine.Outcome
import StampGrid.CommandLine.Request
import StampGrid.Draft.Script
import StampGrid.Plan.Output
import StampGrid.Render

/-!
# Carrying out a command

A command reads its script from the disk or the standard input and tells of
every statement that it passed over. Planning prints the plan; rendering loads
the images, settles names and sizes from flags, variables and defaults in this
order of precedence, and stamps.
-/
namespace StampGrid.CommandLine

def versionText : String := "tilescript 0.1.0\n"

def usage : String :=
  "Usage: tilescript [OPTIONS] <COMMAND>\n\nCommands:\n" ++
  "  run   Run a script and write the final composite\n" ++
  "  plan  Parse a script and print its variables, images, axes and coordinates as JSON\n"

/-- The name under which the script is spoken of. -/
def ScriptOptions.sourceName (options : ScriptOptions) : String :=
  options.script?.getD "<stdin>"

def ScriptOptions.openScript (options : ScriptOptions) (stdin : List UInt8) (d : Disk) :
    Except Fault Source :=
  match options.script? with
  | none => .ok (.ofOctets stdin)
  | some path => d.script path

def ScriptOptions.draft (options : ScriptOptions) (stdin : List UInt8) (d : Disk) :
    Except Failure Draft :=
  match options.openScript stdin d with
  | .error fault => .error (.ofChain fault.chain)
  | .ok source =>
    match Draft.ofSource source (options.chunkSize?.getD Reader.defaultLimit) with
    | .error fault => .error (.under s!"parse script {options.sourceName}" fault.chain)
    | .ok draft => .ok draft

/-- The lines that tell of statements passed over. -/
def warnings (sourceName : String) (draft : Draft) : String :=
  String.join (draft.diagnostics.toList.map fun d =>
    s!"warning: {sourceName}:{Text.Numeral.decimal d.line}: {d.problem.message}\n")

/-- The settings with those put in their place that flags give. -/
def RunOptions.settle (options : RunOptions) (settings : Settings) : Settings :=
  { settings with
    out := options.out?.getD settings.out
    foreground := options.foreground?.getD settings.foreground
    background := options.background?.getD settings.background
    size? := options.size? <|> settings.size? }

/-- Builds and renders a draft; gives the path written and the number of stamps. -/
def RunOptions.renderWith {σ ι : Type} (options : RunOptions) (b : Backend σ ι) (draft : Draft)
    (state : σ) : Except Failure (String × Nat) × σ :=
  match (Scene.ofDraft b draft).perform state with
  | (.error fault, state') => (.error (.under "load script images" fault.chain), state')
  | (.ok scene, state') =>
    match Settings.ofScene scene with
    | .error fault => (.error (.ofChain fault.chain), state')
    | .ok defaults =>
      let settings := options.settle defaults
      match (scene.render b settings).perform state' with
      | (.error fault, state'') => (.error (.ofChain fault.chain), state'')
      | (.ok stamps, state'') => (.ok (settings.out, stamps), state'')

/-- The program of the external backend when no other is named. -/
def defaultProgram : String := "magick"

/-- Renders a draft with the backend that the options choose. -/
def RunOptions.render (options : RunOptions) (programs : Magick.Programs) (draft : Draft)
    (d : Disk) : Except Failure (String × Nat) × Disk :=
  match options.backend?.getD .magick with
  | .raster => options.renderWith (Painter.backend ".") draft d
  | .magick =>
    let program := options.program?.getD defaultProgram
    match Magick.isAvailable programs program { disk := d } with
    | (false, session) =>
      (.error (.ofChain [s!"'{program}' was not found or failed to run; " ++
        "install ImageMagick or use --backend raster"]), session.disk)
    | (true, session) =>
      let (result, session') :=
        options.renderWith (Magick.backend programs program) draft session
      (result, session'.disk)

def RunOptions.execute (options : RunOptions) (programs : Magick.Programs) (stdin : List UInt8)
    (d : Disk) : Outcome × Disk :=
  match options.draft stdin d with
  | .error failure => ({ status := 1, stderr := failure.report }, d)
  | .ok draft =>
    let warned := warnings options.sourceName draft
    match options.render programs draft d with
    | (.error failure, d') => ({ status := 1, stderr := warned ++ failure.report }, d')
    | (.ok (out, stamps), d') =>
      let told := s!"wrote {out} ({Text.Numeral.decimal stamps} composites)\n"
      ({ status := 0, stderr := warned ++ told }, d')

def ScriptOptions.execute (options : ScriptOptions) (stdin : List UInt8) (d : Disk) : Outcome :=
  match options.draft stdin d with
  | .error failure => { status := 1, stderr := failure.report }
  | .ok draft =>
    let (_, progress) := draft.plan.write .spread {}
    { status := 0
      stdout := progress.sink.written.toList ++ Text.Utf8.encode ['\n']
      stderr := warnings options.sourceName draft }

/-- Carries out a command line. One that is refused changes and prints nothing. -/
def execute (programs : Magick.Programs) (args : List String) (stdin : List UInt8) (d : Disk) :
    Outcome × Disk :=
  match Request.ofArgs? args with
  | none => ({ status := 2 }, d)
  | some .version => ({ status := 0, stdout := Text.Utf8.encode versionText.toList }, d)
  | some .help => ({ status := 0, stdout := Text.Utf8.encode usage.toList }, d)
  | some (.plan options) => (options.execute stdin d, d)
  | some (.run options) => options.execute programs stdin d

end StampGrid.CommandLine
