import ScriptInclude.World

/-!
# Exported files

An import file that an `export()` step generates: a header with the time, and a line for each imported
target.
-/

namespace ScriptInclude

structure ExportFile where
  path : Path
  targets : List String := []
  deriving DecidableEq

namespace ExportFile

def header (now : String) : String := "# Generated by export() on " ++ now ++ ". Do not edit.\n"

def targetLine (target : String) : String := "add_library(" ++ target ++ " UNKNOWN IMPORTED)\n"

def content (e : ExportFile) (now : String) : String :=
  header now ++ String.join (e.targets.map targetLine)

inductive WriteError where
  | directory (path : Path) (cause : FileError)
  | file (path : Path) (cause : FileError)

def WriteError.message : WriteError → String
  | .directory path cause => "Failed to create directory " ++ path.text ++ ": " ++ cause.message
  | .file path cause => "Failed to write import file " ++ path.text ++ ": " ++ cause.message

def makeParent (e : ExportFile) (w : World) : World × Except WriteError Unit :=
  match e.path.parent? with
  | none => (w, .ok ())
  | some parent =>
    let (tree, r) := w.tree.makeDirectories w.here parent
    ({ w with tree := tree }, r.mapError (.directory parent))

def write (e : ExportFile) (w : World) : World × Except WriteError Unit :=
  match e.makeParent w with
  | (w, .error err) => (w, .error err)
  | (w, .ok ()) =>
    match w.tree.writeText w.here e.path (e.content w.now) with
    | .ok tree => ({ w with tree := tree }, .ok ())
    | .error err => (w, .error (.file e.path err))

end ExportFile

end ScriptInclude
