import ScriptInclude.Config.Basic
import ScriptInclude.Yaml.Printer

/-!
# Writing a configuration

A configuration as a YAML mapping with all its members. Lists stand flush with their names.
-/

namespace ScriptInclude.Config

open Yaml (writeEntry writeItem writeLine margin)

def optionLine (name : String) : Option String → List Char
  | none => (name ++ ": null\n").toList
  | some s => writeEntry 0 name s

/-- Lines below a name, or brackets if there are none. -/
def section_ (indent : Nat) (name brackets : String) (lines : List (List Char)) : List Char :=
  margin indent ++ name.toList ++
    if lines.isEmpty then (": " ++ brackets ++ "\n").toList else ":\n".toList ++ lines.flatten

def exportFileLines (e : ExportFile) : List Char :=
  "- path: ".toList ++ writeLine 4 e.path.text ++ section_ 2 "targets" "[]" (e.targets.map (writeItem 2))

def toYaml (c : Config) : String :=
  String.ofList <|
    optionLine "extends" c.base ++
    section_ 0 "module-path" "[]" (c.modulePath.map fun p => writeItem 0 p.text) ++
    optionLine "modules-root" (c.modulesRoot.map Path.text) ++
    section_ 0 "policies" "\x7b\x7d" (c.policies.entries.map fun (name, s) => writeEntry 2 name s.name) ++
    section_ 0 "export-files" "[]" (c.exportFiles.map exportFileLines)

end ScriptInclude.Config
