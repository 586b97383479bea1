import ScriptInclude.Config.Reading

/-!
# Layers of configuration files

A file may name a base: a preset, or another file relative to its own directory. Loading a file lays it
over its base, which is loaded in the same way. Paths in a file are taken from the directory of that
file, and are rebased once, when the file is read. Nothing looks out for files that extend one another in
a circle: loading such a file never comes to a result.
-/

namespace ScriptInclude

inductive LoadError where
  | unreadable (file : Path) (cause : FileError)
  | malformed (file : Path)
  | missingBase (name : String)
  deriving DecidableEq

namespace LoadError

def message : LoadError → String
  | .unreadable file _ => "Failed to read config file: " ++ file.text
  | .malformed file => "Failed to parse config file: " ++ file.text
  | .missingBase name => "Base configuration '" ++ name ++ "' not found"

end LoadError

namespace Config

/-- The directory that a file is written in, as its path gives it. -/
def parentOf (file : Path) : Path := file.parent?.getD ⟨"."⟩

/-- The directory that the paths in a file are taken from. -/
def directoryOf (w : World) (file : Path) : Path :=
  let dir := parentOf file
  if dir.isAbsolute then dir else w.cwd.join dir

/-- One file by itself, without its base. -/
def readFile (w : World) (file : Path) : Except LoadError Config := do
  let text ← (w.readText file).mapError (.unreadable file)
  match ofYaml? text with
  | some c => .ok (c.rebase (directoryOf w file))
  | none => .error (.malformed file)

def basePath (name : String) (file : Path) : Path := (parentOf file).join ⟨name⟩

end Config

open Config (readFile preset? basePath) in
/-- Loads a file that is there. `none` means that there is always one more base to load, so that the recursion
does not end. -/
def World.loadExisting (w : World) (file : Path) : Option (Except LoadError Config) :=
  match readFile w file with
  | .error e => some (.error e)
  | .ok c =>
    match c.base with
    | none => some (.ok c)
    | some name =>
      match preset? name with
      | some p => some (.ok (c.layeredOver p))
      | none =>
        if w.pathExists (basePath name file) then do
          let base ← w |>.loadExisting (basePath name file)
          return base.map c.layeredOver
        else some (.error (.missingBase name))
partial_fixpoint

namespace Config

/-- A file that is not there is the default configuration. -/
def loadFile (w : World) (file : Path) : Option (Except LoadError Config) :=
  if w.pathExists file then w.loadExisting file else some (.ok {})

/-! ## The file that is loaded if none is given -/

def localFiles : List Path :=
  [⟨".include-resolver.yaml"⟩, ⟨".include-resolver.yml"⟩, ⟨"include-resolver.yaml"⟩, ⟨"include-resolver.yml"⟩]

/-- The directory of the user's configuration; a relative setting of it does not count. -/
def userDirectory (w : World) : Path :=
  match w.configHome.filter Path.isAbsolute with
  | some dir => dir
  | none => w.home.join ⟨".config"⟩

def userFile (w : World) : Path := ((userDirectory w).join ⟨"include-resolver"⟩).join ⟨"config.yaml"⟩

def defaultFile (w : World) : Path := (localFiles.find? w.pathExists).getD (userFile w)

def load (w : World) (file? : Option Path) : Option (Except LoadError Config) :=
  loadFile w (file?.getD (defaultFile w))

end Config

end ScriptInclude
