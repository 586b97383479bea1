import ScriptInclude.Message
import ScriptInclude.Path.Collapse
import ScriptInclude.Policy

/-!
# The host of the directive

What the directive needs from the interpreter it runs in. A host is a state; questions read it, effects
give the next state. A host may have its own idea of paths; if it has none, paths are taken by their text.
-/

namespace ScriptInclude

class Host (σ : Type) where
  /-- The module file of a name such as `Foo.cmake`. -/
  findModule? : σ → String → Option Path
  isFullPath : σ → Path → Bool := fun _ p => p.isFull
  /-- The canonical form of a path as seen from a directory. -/
  collapsePath : σ → Path → Path → Path := fun _ p base => p.collapse base
  fileExists : σ → Path → Bool
  /-- Whether an `export()` step generates the file. -/
  isExported : σ → Path → Bool
  policyStatus : σ → Policy → PolicyStatus
  fatalReported : σ → Bool
  /-- Writes the import file at a path again. -/
  generate : Path → σ → σ
  /-- Reads and runs a file; says whether it was read. The flag asks for no policy scope of its own. -/
  loadFile : Path → Bool → σ → Bool × σ
  define : String → String → σ → σ
  report : Message → σ → σ

end ScriptInclude
