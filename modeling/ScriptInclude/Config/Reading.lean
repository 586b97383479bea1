import ScriptInclude.Config.Basic
import ScriptInclude.Yaml.Decode

/-!
# Reading a configuration

A configuration file is a YAML mapping. Members that are not known are ignored; one that is known may be
given once. A file without content is the default configuration.
-/

namespace ScriptInclude.Config

open Yaml (Decode Node)

inductive Member where
  | base (name : Option String)
  | modulePath (dirs : List Path)
  | modulesRoot (dir : Option Path)
  | policies (settings : Dictionary PolicyStatus)
  | exportFiles (files : List ExportFile)
  | ignored

def once {α : Type} : List α → Decode (Option α)
  | [] => return none
  | [x] => return some x
  | _ => failure

def paths (n : Node) : Decode (List Path) := Decode.list (fun n => return ⟨← Decode.text n⟩) n

def status (n : Node) : Decode PolicyStatus := do
  match PolicyStatus.ofName? (← Decode.name n) with
  | some s => return s
  | none => failure

def settings (n : Node) : Decode (Dictionary PolicyStatus) := do
  return .ofList (← Decode.entries (fun _ => status) n)

def exportFile (n : Node) : Decode ExportFile := do
  let members ← Decode.entries
    (fun name n => do
      match name with
      | "path" => return some (Sum.inl (← Decode.text n))
      | "targets" => return some (Sum.inr (← Decode.list Decode.text n))
      | _ => return none) n
  let values := members.filterMap Prod.snd
  match ← once (values.filterMap Sum.getLeft?) with
  | some path => return ⟨⟨path⟩, (← once (values.filterMap Sum.getRight?)).getD []⟩
  | none => failure

def member (name : String) (n : Node) : Decode Member := do
  match name with
  | "extends" => return .base (← Decode.text? n)
  | "module-path" => return .modulePath (← paths n)
  | "modules-root" => return .modulesRoot ((← Decode.text? n).map Path.mk)
  | "policies" => return .policies (← settings n)
  | "export-files" => return .exportFiles (← Decode.list exportFile n)
  | _ => return .ignored

def ofMembers (ms : List Member) : Decode Config := do
  let base ← once (ms.filterMap fun | .base x => some x | _ => none)
  let modulePath ← once (ms.filterMap fun | .modulePath x => some x | _ => none)
  let modulesRoot ← once (ms.filterMap fun | .modulesRoot x => some x | _ => none)
  let policies ← once (ms.filterMap fun | .policies x => some x | _ => none)
  let exportFiles ← once (ms.filterMap fun | .exportFiles x => some x | _ => none)
  return {
    base := base.getD none
    modulePath := modulePath.getD []
    modulesRoot := modulesRoot.getD none
    policies := policies.getD .empty
    exportFiles := exportFiles.getD [] }

def ofNode (n : Node) : Decode Config := do ofMembers ((← Decode.entries member n).map Prod.snd)

def ofYaml? (text : String) : Option Config := do
  match ← Node.read? text with
  | some n => Decode.decode n ofNode
  | none => return {}

end ScriptInclude.Config
