import ScriptInclude.CommandLine
import ScriptInclude.Config.Layers
import ScriptInclude.Config.Printing
import ScriptInclude.Report.Human
import ScriptInclude.Report.Json

/-!
# The program

One run: read the command line, load the configuration, lay the options over it, and then show the
configuration, list the modules or evaluate the directive. The run ends with a status, what it printed,
what it has to say about an error, and the world as it left it; or it has no end, because loading the
configuration has none. Logging is left out: what a run says beside its output is its last word on an error.
-/

namespace ScriptInclude

namespace Report

def ofSession (args : List String) (result : Result) (s : Session) : Report where
  args := args
  result := result
  messages := s.interpreter.messages
  bindings := s.interpreter.bindings
  loaded := s.interpreter.loaded.map LoadedFile.path
  generated := s.interpreter.generated

def render (r : Report) (colours : Bool) : Format → String
  | .human => r.human colours
  | .json => r.jsonText

end Report

/-- An error that ends a run before the directive is evaluated. -/
inductive RunError where
  | load (cause : LoadError)
  | override (cause : PolicyError)
  | policies (cause : PolicyError)

namespace RunError

def message : RunError → String
  | .load cause => "Failed to load configuration: " ++ cause.message
  | .override cause => cause.message
  | .policies cause => Config.policyContext ++ ": " ++ cause.message

end RunError

structure Ending where
  status : Nat
  output : String := ""
  complaint : Option String := none
  world : World

namespace Program

def version : String := "include-resolver 0.1.0\n"

def usage : String :=
  "Evaluate an include() directive of a build-configuration script\n\n" ++
  "Usage: include-resolver [OPTIONS] [ARGS]...\n\n" ++
  "Arguments:\n  [ARGS]...  Directive arguments\n\n" ++
  "Options:\n" ++
  "  -C, --source-dir <SOURCE_DIR>    Directory relative targets are resolved against\n" ++
  "  -M, --module-path <MODULE_PATH>  Additional module directory (repeatable)\n" ++
  "  -c, --config <CONFIG>            Path to configuration file\n" ++
  "      --export-file <EXPORT_FILE>  Register a generated export file (repeatable)\n" ++
  "      --policy <POLICY>            Set a policy, e.g. CMP0024=NEW (comma-separated)\n" ++
  "  -f, --format <FORMAT>            Output format [default: human] [possible values: human, json]\n" ++
  "      --list-modules               List modules found in the module directories and exit\n" ++
  "      --show-config                Show effective configuration and exit\n" ++
  "  -v, --verbose                    Enable debug logging\n" ++
  "  -h, --help                       Print help\n" ++
  "  -V, --version                    Print version\n\n" ++
  "Example: include-resolver -C src -M cmake Utils OPTIONAL RESULT_VARIABLE R\n"

def configure (cl : CommandLine) (w : World) : Option (Except RunError Config) :=
  (Config.load w cl.config).map fun loaded => do
    let c ← loaded.mapError .load
    match cl.override (cl.resolvedSourceDir w.cwd) c with
    | (c, .ok ()) => .ok c
    | (_, .error e) => .error (.override e)

def showConfig (c : Config) : String := "Effective configuration:\n" ++ c.toYaml ++ "\n"

def moduleLine (name : String) (path : Path) : String :=
  "  " ++ Text.padRight 30 name ++ " " ++ path.text ++ "\n"

def listModules (modules : Dictionary Path) : String :=
  if modules.isEmpty then "No modules found\n"
  else "Available modules:\n\n" ++ String.join (modules.entries.map fun (name, path) => moduleLine name path)

def evaluate (cl : CommandLine) (s : Session) : Ending :=
  let ctx := Directive.contextOf (cl.resolvedSourceDir s.world.cwd) s
  let (result, after) := Directive.evaluate ctx cl.args s
  let report := Report.ofSession cl.args result after
  { status := if report.succeeded then 0 else 1
    output := report.render s.world.colours cl.outputFormat ++ "\n"
    complaint := match result with
      | .ok _ => none
      | .error e => some ("include " ++ e.message)
    world := after.world }

def runConfigured (cl : CommandLine) (w : World) (c : Config) : Ending :=
  if cl.showConfig then { status := 0, output := showConfig c, world := w }
  else match c.interpreter with
    | .error e => { status := 1, complaint := some (RunError.policies e).message, world := w }
    | .ok i =>
      if cl.listModules then { status := 0, output := listModules (Session.mk i w).availableModules, world := w }
      else evaluate cl ⟨i, w⟩

def runCommand (cl : CommandLine) (w : World) : Option Ending :=
  (configure cl w).map fun
    | .error e => { status := 1, complaint := some e.message, world := w }
    | .ok c => runConfigured cl w c

/-- A run with the arguments that follow the name of the program. `none` is a run without an end: nothing is
printed, and no status is chosen. -/
def run (args : List String) (w : World) : Option Ending :=
  match CommandLine.parse args with
  | .ok cl => runCommand cl w
  | .error .displayHelp => some { status := 0, output := usage, world := w }
  | .error .displayVersion => some { status := 0, output := version, world := w }
  | .error _ => some { status := 2, complaint := some "wrong usage; for more information, try '--help'", world := w }

end Program

end ScriptInclude
