import ScriptInclude.Failure

/-!
# The arguments of a call

A target, then at most three modifiers. A second argument that is no keyword is ignored, as old
scripts rely on it.
-/

namespace ScriptInclude

inductive Keyword where
  | optional
  | resultVariable
  | noPolicyScope
  deriving DecidableEq

namespace Keyword

def name : Keyword → String
  | .optional => "OPTIONAL"
  | .resultVariable => "RESULT_VARIABLE"
  | .noPolicyScope => "NO_POLICY_SCOPE"

def ofToken? (token : String) : Option Keyword :=
  [optional, resultVariable, noPolicyScope].find? fun k => k.name == token

end Keyword

structure Options where
  target : String
  optional : Bool := false
  noPolicyScope : Bool := false
  resultVariable : Option String := none
  deriving DecidableEq

namespace Options

def maxArguments : Nat := 4

/-- The variable that a value names; an empty value names none. -/
def variableNamed (value : String) : Option String := if value = "" then none else some value

/-- Reads modifiers into `o`. `lenient` holds where a token that is no keyword is ignored. The value of a
variable is taken as it stands, also when it spells a keyword. -/
def modify (lenient : Bool) (o : Options) : List String → Except Failure Options
  | [] => .ok o
  | token :: rest =>
    match Keyword.ofToken? token with
    | some .optional =>
      if o.optional then .error (.duplicateModifier .optional)
      else modify false { o with optional := true } rest
    | some .resultVariable =>
      if o.resultVariable.isSome then .error (.duplicateModifier .resultVariable)
      else match rest with
        | [] => .error .missingValue
        | value :: rest => modify false { o with resultVariable := variableNamed value } rest
    | some .noPolicyScope => modify false { o with noPolicyScope := true } rest
    | none => if lenient then modify false o rest else .error (.unknownArgument token)

def parse : List String → Except Failure Options
  | [] => .error .argumentCount
  | target :: modifiers =>
    if maxArguments < modifiers.length + 1 then .error .argumentCount
    else modify true { target := target } modifiers

end Options

end ScriptInclude
