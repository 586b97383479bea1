import ScriptInclude.Message.Json
import ScriptInclude.Report.Basic

/-!
# Reports for programs

One JSON object. It has a member `outcome` if the call succeeded and a member `error` if it failed. All that a
report holds is text, also its paths, so writing it out does not fail.
-/

namespace ScriptInclude.Report

def natural (n : Nat) : Json := .number (toString n)

def texts (xs : List String) : Json := .array (xs.map .string)

def outcomeJson : Outcome → Json
  | .ignored => .object [("status", .string "ignored")]
  | .loaded path => .object [("status", .string "loaded"), ("path", .string path.text)]
  | .notLoaded => .object [("status", .string "not-loaded")]

def failureJson (e : Failure) : Json :=
  .object [("kind", .string e.kind), ("message", .string e.message)]

def resultMember : Result → String × Json
  | .ok o => ("outcome", outcomeJson o)
  | .error e => ("error", failureJson e)

def statsJson (r : Report) : Json :=
  .object
    [("fatal_errors", natural (r.count .fatalError)), ("warnings", natural (r.count .warning)),
      ("author_warnings", natural (r.count .authorWarning))]

def toJson (r : Report) : Json :=
  .object
    [("args", texts r.args), ("success", .bool r.succeeded), resultMember r.result,
      ("messages", .array (r.messages.map Message.toJson)),
      ("variables", .object (r.bindings.entries.map fun (name, value) => (name, .string value))),
      ("loaded", texts (r.loaded.map Path.text)), ("generated", texts (r.generated.map Path.text)),
      ("stats", statsJson r)]

def jsonText (r : Report) : String := r.toJson.pretty

end ScriptInclude.Report
