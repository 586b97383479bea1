import ScriptInclude.Path.Basic

/-!
# Why a call fails

Either the arguments are wrong, and then nothing was done, or the file could not be had.
-/

namespace ScriptInclude

/-- A modifier that may be given once. -/
inductive Modifier where
  | optional
  | resultVariable
  deriving DecidableEq

inductive Failure where
  | argumentCount
  | duplicateModifier (modifier : Modifier)
  | missingValue
  | unknownArgument (text : String)
  | exportFilePolicy (path : Path)
  | fileNotFound (specifier : String)
  deriving DecidableEq

namespace Failure

def isArgumentError : Failure → Bool
  | .argumentCount | .duplicateModifier _ | .missingValue | .unknownArgument _ => true
  | .exportFilePolicy _ | .fileNotFound _ => false

def kind : Failure → String
  | .argumentCount => "argument-count"
  | .duplicateModifier _ => "duplicate-modifier"
  | .missingValue => "missing-value"
  | .unknownArgument _ => "unknown-argument"
  | .exportFilePolicy _ => "export-file-policy"
  | .fileNotFound _ => "file-not-found"

def message : Failure → String
  | .argumentCount => "called with wrong number of arguments.  include() only takes one file."
  | .duplicateModifier .optional => "called with invalid arguments: OPTIONAL used twice"
  | .duplicateModifier .resultVariable => "called with invalid arguments: only one result variable allowed"
  | .missingValue => "called with no value for RESULT_VARIABLE."
  | .unknownArgument text => "called with invalid argument: " ++ text
  | .exportFilePolicy path => "may not include the export() result " ++ path.text
  | .fileNotFound specifier => "could not find load file:\n  " ++ specifier

end Failure

end ScriptInclude
