import ScriptInclude.Config.Basic

/-!
# The command line

Options may stand before, between and after the arguments of the directive; after `--` all is an
argument. The value of an option follows it, or is attached to it. Short flags may stand together. A
value that follows is looked at when the next item is taken, so an unknown option after it is reported
before a value that is not good.
-/

namespace ScriptInclude

inductive Format where
  | human
  | json
  deriving DecidableEq

structure CommandLine where
  args : List String := []
  sourceDir : Option Path := none
  modulePath : List Path := []
  config : Option Path := none
  exportFiles : List Path := []
  policies : List String := []
  format : Option Format := none
  listModules : Bool := false
  showConfig : Bool := false
  verbose : Bool := false
  deriving DecidableEq

/-- Why a command line is not taken as a call. -/
inductive UsageError where
  | unknownArgument
  | invalidValue
  /-- A value is attached to a flag. -/
  | tooManyValues
  /-- An option that may be given once is given again. -/
  | argumentConflict
  | displayHelp
  | displayVersion
  deriving DecidableEq

namespace CommandLine

inductive Flag where
  | listModules
  | showConfig
  | verbose
  | help
  | version
  deriving DecidableEq

inductive Valued where
  | sourceDir
  | modulePath
  | config
  | exportFile
  | policy
  | format
  deriving DecidableEq

inductive Switch where
  | flag (f : Flag)
  | valued (v : Valued)

def long? : String → Option Switch
  | "list-modules" => some (.flag .listModules)
  | "show-config" => some (.flag .showConfig)
  | "verbose" => some (.flag .verbose)
  | "help" => some (.flag .help)
  | "version" => some (.flag .version)
  | "source-dir" => some (.valued .sourceDir)
  | "module-path" => some (.valued .modulePath)
  | "config" => some (.valued .config)
  | "export-file" => some (.valued .exportFile)
  | "policy" => some (.valued .policy)
  | "format" => some (.valued .format)
  | _ => none

def short? : Char → Option Switch
  | 'v' => some (.flag .verbose)
  | 'h' => some (.flag .help)
  | 'V' => some (.flag .version)
  | 'C' => some (.valued .sourceDir)
  | 'M' => some (.valued .modulePath)
  | 'c' => some (.valued .config)
  | 'f' => some (.valued .format)
  | _ => none

def format? : String → Option Format
  | "human" => some .human
  | "json" => some .json
  | _ => none

/-! ## Setting -/

def setFlag (f : Flag) (c : CommandLine) : Except UsageError CommandLine :=
  match f with
  | .listModules => if c.listModules then .error .argumentConflict else .ok { c with listModules := true }
  | .showConfig => if c.showConfig then .error .argumentConflict else .ok { c with showConfig := true }
  | .verbose => if c.verbose then .error .argumentConflict else .ok { c with verbose := true }
  | .help => .error .displayHelp
  | .version => .error .displayVersion

def isTaken (v : Valued) (c : CommandLine) : Bool :=
  match v with
  | .sourceDir => c.sourceDir.isSome
  | .config => c.config.isSome
  | .format => c.format.isSome
  | .modulePath | .exportFile | .policy => false

/-- A path may not be empty. -/
def pathValue (value : String) : Except UsageError Path :=
  if value = "" then .error .invalidValue else .ok ⟨value⟩

def setValue (v : Valued) (value : String) (c : CommandLine) : Except UsageError CommandLine := do
  if c.isTaken v then .error .argumentConflict
  else match v with
    | .sourceDir => return { c with sourceDir := some (← pathValue value) }
    | .modulePath => return { c with modulePath := c.modulePath ++ [← pathValue value] }
    | .config => return { c with config := some (← pathValue value) }
    | .exportFile => return { c with exportFiles := c.exportFiles ++ [← pathValue value] }
    | .policy => return { c with policies := c.policies ++ [value] }
    | .format => match format? value with
      | some f => return { c with format := some f }
      | none => .error .invalidValue

/-! ## Reading -/

/-- An option whose value is to come, or came and is to be looked at. -/
inductive Pending where
  | none
  | awaits (v : Valued)
  | holds (v : Valued) (value : String)

def settle (p : Pending) (c : CommandLine) : Except UsageError CommandLine :=
  match p with
  | .none => .ok c
  | .awaits _ => .error .invalidValue
  | .holds v value => c.setValue v value

def splitValue (cs : List Char) : String × Option String :=
  match Text.cutFirst? '=' cs with
  | some (name, value) => (String.ofList name, some (String.ofList value))
  | none => (String.ofList cs, none)

def takeLong (cs : List Char) (p : Pending) (c : CommandLine) : Except UsageError (Pending × CommandLine) :=
  let (name, attached) := splitValue cs
  match long? name, attached with
  | none, _ => .error .unknownArgument
  | some (.flag _), some _ => .error .tooManyValues
  | some (.flag f), none => do return (.none, ← (← c.settle p).setFlag f)
  | some (.valued v), some value => do return (.none, ← (← c.settle p).setValue v value)
  | some (.valued v), none => do return (.awaits v, ← c.settle p)

/-- Letters after one dash. All that follows the letter of an option is its value, less an equals sign
in front. -/
def takeShort (p : Pending) (c : CommandLine) : List Char → Except UsageError (Pending × CommandLine)
  | [] => .ok (p, c)
  | letter :: rest =>
    match short? letter with
    | none => .error .unknownArgument
    | some (.flag f) => do takeShort .none (← (← c.settle p).setFlag f) rest
    | some (.valued v) => do
      let c ← c.settle p
      match rest with
      | [] => return (.awaits v, c)
      | '=' :: value => return (.none, ← c.setValue v (String.ofList value))
      | value => return (.none, ← c.setValue v (String.ofList value))

def takeArgument (arg : String) (p : Pending) (c : CommandLine) : Except UsageError (Pending × CommandLine) := do
  let c ← c.settle p
  return (.none, { c with args := c.args ++ [arg] })

def takeRest (p : Pending) (c : CommandLine) : List String → Except UsageError (Pending × CommandLine)
  | [] => .ok (p, c)
  | arg :: rest => do
    let (p, c) ← c.takeArgument arg p
    takeRest p c rest

/-- A word that is no option: the value that is awaited, or an argument. -/
def takeWord (arg : String) (p : Pending) (c : CommandLine) : Except UsageError (Pending × CommandLine) :=
  match p with
  | .awaits v => .ok (.holds v arg, c)
  | p => c.takeArgument arg p

def takeAll (p : Pending) (c : CommandLine) : List String → Except UsageError (Pending × CommandLine)
  | [] => .ok (p, c)
  | arg :: rest =>
    match arg.toList with
    | ['-', '-'] => takeRest p c rest
    | '-' :: '-' :: cs => do
      let (p, c) ← c.takeLong cs p
      takeAll p c rest
    | '-' :: l :: cs => do
      let (p, c) ← takeShort p c (l :: cs)
      takeAll p c rest
    | _ => do
      let (p, c) ← c.takeWord arg p
      takeAll p c rest

def parse (args : List String) : Except UsageError CommandLine := do
  let (p, c) ← takeAll .none {} args
  c.settle p

/-! ## What the options say -/

def outputFormat (c : CommandLine) : Format := c.format.getD .human

def resolvedSourceDir (c : CommandLine) (cwd : Path) : Path :=
  match c.sourceDir with
  | some dir => cwd.join dir
  | none => cwd

/-- A piece `id=status`; a piece without a sign or with a blank side says nothing. -/
def setting? (piece : List Char) : Option (String × String) := do
  let (id, status) ← Text.cutFirst? '=' piece
  let id := Text.trimChars id
  let status := Text.trimChars status
  if id.isEmpty || status.isEmpty then none else some (String.ofList id, String.ofList status)

def policySettings (c : CommandLine) : List (String × String) :=
  (c.policies.flatMap fun s => Text.pieces ',' s.toList).filterMap setting?

/-! ## Over a configuration -/

def applyPolicies (c : Config) : List (String × String) → Config × Except PolicyError Unit
  | [] => (c, .ok ())
  | (id, status) :: rest =>
    match Policy.read id, PolicyStatus.read status with
    | .error e, _ => (c, .error e)
    | .ok _, .error e => (c, .error e)
    | .ok p, .ok s => applyPolicies (c.setPolicy p s) rest

/-- Module directories come before those of the configuration, exported files after them. Policies that
were set before one that is not good stay set. -/
def override (cl : CommandLine) (sourceDir : Path) (c : Config) : Config × Except PolicyError Unit :=
  let c := { c with modulePath := (cl.modulePath.map fun p => p.collapse sourceDir) ++ c.modulePath }
  let files := cl.exportFiles.map fun p => ExportFile.mk (p.collapse sourceDir) []
  applyPolicies (files.foldl Config.addExportFile c) cl.policySettings

end CommandLine

end ScriptInclude
