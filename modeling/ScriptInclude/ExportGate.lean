import ScriptInclude.Failure
import ScriptInclude.Host

/-!
# The gate for exported files

A file that an `export()` step generates is generated again before anything else happens to it, also
when the policy then refuses it. The warning comes before the generation, the refusal after it.
-/

namespace ScriptInclude.ExportGate

inductive Modal where
  | should
  | may

def Modal.word : Modal → String
  | .should => "should"
  | .may => "may"

def text (path : Path) (modal : Modal) : String :=
  "The file\n  " ++ path.text ++ "\nwas generated by the export() command.  It " ++ modal.word ++
    " not be used as the argument to the include() command.  Use ALIAS targets instead to refer to " ++
    "targets by alternative names.\n"

def warning (path : Path) : Message :=
  ⟨.authorWarning, Policy.cmp0024.warning ++ "\n" ++ text path .should⟩

def refusal (path : Path) : Message := ⟨.fatalError, text path .may⟩

variable {σ : Type} [Host σ]

def check (path : Path) (host : σ) : Except Failure Unit × σ :=
  if Host.isExported host path then
    match (Host.policyStatus host .cmp0024).action with
    | .proceed => (.ok (), Host.generate path host)
    | .warn => (.ok (), Host.generate path (Host.report (warning path) host))
    | .abort => (.error (.exportFilePolicy path), Host.report (refusal path) (Host.generate path host))
  else (.ok (), host)

end ScriptInclude.ExportGate
