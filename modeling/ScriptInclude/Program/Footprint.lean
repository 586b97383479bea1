import ScriptInclude.Program

/-!
# What a run looks at

The paths whose entries a run may ask for, as far as they can be told from what is known of the world. The
more of them the world holds, the more may be named, so the outer layer fills in a world until nothing new
comes up.
-/

namespace ScriptInclude.Program

/-- The files of a chain of configurations. -/
def chain (w : World) : Nat → Path → List Path
  | 0, _ => []
  | fuel + 1, file =>
    file :: match Config.readFile w file with
      | .ok c => match c.base with
        | some name =>
          if (Config.preset? name).isSome then [] else chain w fuel (Config.basePath name file)
        | none => []
      | .error _ => []

/-- As many files of a chain as there are entries, and one more, show all that is known of it. -/
def configFiles (cl : CommandLine) (w : World) : List Path :=
  let first := match cl.config with
    | some file => [file]
    | none => Config.localFiles ++ [Config.userFile w]
  first ++ chain w (w.tree.entries.length + 1) (cl.config.getD (Config.defaultFile w))

def evaluationFiles (cl : CommandLine) (s : Session) : List Path :=
  match cl.args with
  | [] => []
  | target :: _ =>
    let path := (Target.resolve s target (cl.resolvedSourceDir s.world.cwd)).path
    s.candidates (target ++ scriptSuffix) ++ [path] ++ s.interpreter.exportFiles.map ExportFile.path

def footprint (args : List String) (w : World) : List Path :=
  match CommandLine.parse args with
  | .error _ => []
  | .ok cl =>
    configFiles cl w ++ match configure cl w with
      | some (.ok c) => match c.interpreter with
        | .error _ => []
        | .ok i => evaluationFiles cl ⟨i, w⟩
      | _ => []

def listed (args : List String) (w : World) : List Path :=
  match CommandLine.parse args with
  | .error _ => []
  | .ok cl =>
    if !cl.listModules then []
    else match configure cl w with
      | some (.ok c) => c.modulePath ++ c.modulesRoot.toList
      | _ => []

end ScriptInclude.Program
