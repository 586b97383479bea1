import ScriptInclude.ExportFile
import ScriptInclude.Host.Interpreter

/-!
# Configuration

What a host is set up with: module directories, policies and exported files. A configuration can be laid
over a base. Its own settings then come first, and nothing of the base is lost that does not double them.
-/

namespace ScriptInclude

structure Config where
  /-- The name of the base, as the file gives it. -/
  base : Option String := none
  modulePath : List Path := []
  modulesRoot : Option Path := none
  policies : Dictionary PolicyStatus := .empty
  exportFiles : List ExportFile := []
  deriving DecidableEq

namespace Config

instance : Inhabited Config := ⟨{}⟩

def setPolicy (c : Config) (p : Policy) (v : PolicyStatus) : Config :=
  { c with policies := c.policies.insert p.name v }

def addPath (ps : List Path) (p : Path) : List Path := if ps.any fun q => decide (q.Same p) then ps else ps ++ [p]

/-- Adds an exported file unless one with the same path is there. -/
def addTo (es : List ExportFile) (e : ExportFile) : List ExportFile :=
  if es.any fun f => decide (f.path.Same e.path) then es else es ++ [e]

def addExportFile (c : Config) (e : ExportFile) : Config := { c with exportFiles := addTo c.exportFiles e }

/-! ## Presets -/

def strict : Config := setPolicy {} .cmp0024 .new

def legacy : Config := setPolicy {} .cmp0024 .old

def preset? : String → Option Config
  | "default" => some {}
  | "strict" => some strict
  | "legacy" => some legacy
  | _ => none

/-! ## Layers -/

/-- `c` laid over `b`. -/
def layeredOver (c b : Config) : Config where
  base := c.base
  modulePath := b.modulePath.foldl addPath c.modulePath
  modulesRoot := c.modulesRoot.or b.modulesRoot
  policies := c.policies.layeredOver b.policies
  exportFiles := b.exportFiles.foldl addTo c.exportFiles

/-- Every path as seen from `dir`. -/
def rebase (c : Config) (dir : Path) : Config :=
  { c with
    modulePath := c.modulePath.map fun p => p.collapse dir
    modulesRoot := c.modulesRoot.map fun p => p.collapse dir
    exportFiles := c.exportFiles.map fun e => { e with path := e.path.collapse dir } }

/-! ## The host -/

def policySettings (c : Config) : Except PolicyError PolicySettings := PolicySettings.ofNamed c.policies

/-- What an error in the policies is introduced with. -/
def policyContext : String := "Invalid policy configuration"

def interpreter (c : Config) : Except PolicyError Interpreter := do
  let settings ← c.policySettings
  return { moduleDirs := c.modulePath ++ c.modulesRoot.toList, exportFiles := c.exportFiles, scopes := [settings] }

end Config

end ScriptInclude
