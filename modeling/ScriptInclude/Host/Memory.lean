import ScriptInclude.Host

/-!
# A host in memory

Modules, exported files and files are tables. Every effect is kept in a record of calls, so a whole
evaluation can be told from the state after it.
-/

namespace ScriptInclude

/-- A file that reports messages when it is run. -/
structure MemoryFile where
  path : Path
  readable : Bool := true
  reports : List Message := []
  deriving DecidableEq

inductive Call where
  | generate (path : Path)
  | load (path : Path) (noPolicyScope : Bool)
  | define (name value : String)
  | report (message : Message)
  deriving DecidableEq

structure Memory where
  modules : Dictionary Path := .empty
  exports : List Path := []
  files : List MemoryFile := []
  policies : PolicySettings := .unset
  bindings : Dictionary String := .empty
  calls : List Call := []
  fatal : Bool := false

namespace Memory

def fileAt? (m : Memory) (p : Path) : Option MemoryFile := m.files.find? fun f => decide (f.path.Same p)

def record (c : Call) (m : Memory) : Memory := { m with calls := m.calls ++ [c] }

def addFile (f : MemoryFile) (m : Memory) : Memory := { m with files := m.files ++ [f] }

def removeFile (p : Path) (m : Memory) : Memory :=
  { m with files := m.files.filter fun f => !decide (f.path.Same p) }

def report (message : Message) (m : Memory) : Memory :=
  { m.record (.report message) with fatal := m.fatal || message.isFatal }

def define (name value : String) (m : Memory) : Memory :=
  { m.record (.define name value) with bindings := m.bindings.insert name value }

/-- Generating a file makes it readable where there was none. -/
def generate (p : Path) (m : Memory) : Memory :=
  let m := m.record (.generate p)
  if (m.fileAt? p).isSome then m else m.addFile { path := p }

def loadFile (p : Path) (noPolicyScope : Bool) (m : Memory) : Bool × Memory :=
  let m := m.record (.load p noPolicyScope)
  match m.fileAt? p with
  | none => (false, m)
  | some f => (f.readable, f.reports.foldl (fun m message => m.report message) m)

instance : Host Memory where
  findModule? m name := m.modules.get? name
  fileExists m p := (m.fileAt? p).isSome
  isExported m p := m.exports.any fun e => decide (e.Same p)
  policyStatus m p := m.policies.status p
  fatalReported m := m.fatal
  generate := generate
  loadFile := loadFile
  define := define
  report := report

end Memory

end ScriptInclude
