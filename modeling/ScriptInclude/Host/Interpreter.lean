import ScriptInclude.ExportFile
import ScriptInclude.Host
import ScriptInclude.Target

/-!
# A host over a file tree

The interpreter keeps its evaluation state in memory and works on the files of a world. Module
directories are searched in order. A file that is loaded gets a policy scope of its own unless the call
says otherwise; reading it is all that running it does here.
-/

namespace ScriptInclude

structure LoadedFile where
  path : Path
  noPolicyScope : Bool
  deriving DecidableEq

structure Interpreter where
  moduleDirs : List Path := []
  exportFiles : List ExportFile := []
  /-- The innermost policy scope first. -/
  scopes : List PolicySettings := [.unset]
  bindings : Dictionary String := .empty
  messages : List Message := []
  loaded : List LoadedFile := []
  generated : List Path := []
  fatal : Bool := false

namespace Interpreter

def exportFile? (i : Interpreter) (p : Path) : Option ExportFile :=
  i.exportFiles.find? fun e => decide (e.path.Same p)

def policyStatus (i : Interpreter) (p : Policy) : PolicyStatus :=
  match i.scopes with
  | [] => .warn
  | scope :: _ => scope.status p

def setPolicy (i : Interpreter) (p : Policy) (v : PolicyStatus) : Interpreter :=
  match i.scopes with
  | [] => i
  | scope :: outer => { i with scopes := scope.set p v :: outer }

def openScope (i : Interpreter) : Interpreter := { i with scopes := i.scopes.headD .unset :: i.scopes }

def closeScope (i : Interpreter) : Interpreter := { i with scopes := i.scopes.tail }

def report (m : Message) (i : Interpreter) : Interpreter :=
  { i with messages := i.messages ++ [m], fatal := i.fatal || m.isFatal }

def define (name value : String) (i : Interpreter) : Interpreter :=
  { i with bindings := i.bindings.insert name value }

end Interpreter

/-! ## Sessions -/

structure Session where
  interpreter : Interpreter
  world : World

namespace Session

def candidates (s : Session) (fileName : String) : List Path :=
  s.interpreter.moduleDirs.map fun dir => dir.join ⟨fileName⟩

def findModule? (s : Session) (fileName : String) : Option Path :=
  ((s.candidates fileName).find? s.world.isFile).map fun p => p.collapse s.world.cwd

/-- The module names among the files of a directory, with their paths. -/
def modulesIn (w : World) (dir : Path) : List (String × Path) :=
  (w.filesIn dir).filterMap fun file =>
    if scriptSuffix.toList.isSuffixOf file.toList then
      some (String.ofList (file.toList.take (file.length - scriptSuffix.length)), dir.join ⟨file⟩)
    else none

/-- Every module by name; a name in an earlier directory hides later ones. -/
def availableModules (s : Session) : Dictionary Path :=
  (s.interpreter.moduleDirs.flatMap (modulesIn s.world)).foldl (fun d e => d.insertNew e.1 e.2) .empty

def report (m : Message) (s : Session) : Session := { s with interpreter := s.interpreter.report m }

def define (name value : String) (s : Session) : Session :=
  { s with interpreter := s.interpreter.define name value }

/-- Writes the registered file at `p`. A failure is only a warning. -/
def generate (p : Path) (s : Session) : Session :=
  match s.interpreter.exportFile? p with
  | none => s
  | some e =>
    match e.write s.world with
    | (w, .ok ()) => ⟨{ s.interpreter with generated := s.interpreter.generated ++ [e.path] }, w⟩
    | (w, .error err) => ⟨s.interpreter.report ⟨.warning, err.message⟩, w⟩

/-- Reads the file in the scope that is open. -/
def readFile (p : Path) (noPolicyScope : Bool) (s : Session) : Bool × Session :=
  match s.world.readText p with
  | .ok _ =>
    (true, { s with interpreter :=
      { s.interpreter with loaded := s.interpreter.loaded ++ [⟨p, noPolicyScope⟩] } })
  | .error _ => (false, s)

def loadFile (p : Path) (noPolicyScope : Bool) (s : Session) : Bool × Session :=
  if noPolicyScope then readFile p noPolicyScope s
  else
    let (read, s) := readFile p noPolicyScope { s with interpreter := s.interpreter.openScope }
    (read, { s with interpreter := s.interpreter.closeScope })

instance : Host Session where
  findModule? := findModule?
  fileExists s p := s.world.pathExists p
  isExported s p := (s.interpreter.exportFile? p).isSome
  policyStatus s p := s.interpreter.policyStatus p
  fatalReported s := s.interpreter.fatal
  generate := generate
  loadFile := loadFile
  define := define
  report := report

end Session

end ScriptInclude
