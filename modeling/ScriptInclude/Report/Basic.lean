import ScriptInclude.Directive

/-!
# Reports

Everything that can be seen after one evaluation of the directive.
-/

namespace ScriptInclude

structure Report where
  args : List String
  result : Result
  messages : List Message := []
  bindings : Dictionary String := .empty
  loaded : List Path := []
  generated : List Path := []

namespace Report

def succeeded (r : Report) : Bool := r.result.isOk

def count (r : Report) (level : Level) : Nat := r.messages.countP fun m => m.level == level

/-- An argument as it is written in a script. -/
def argument (a : String) : String := if a = "" ∨ ' ' ∈ a.toList then "\"" ++ a ++ "\"" else a

def call (r : Report) : String := "include(" ++ " ".intercalate (r.args.map argument) ++ ")"

end Report

end ScriptInclude
