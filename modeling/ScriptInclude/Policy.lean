import ScriptInclude.Dictionary
import ScriptInclude.Text.Blank

/-!
# Policies

A policy says whether a deprecated construct is still accepted silently, accepted with a warning, or
refused. The directive asks one of them: may a file that `export()` generated be included? A policy
that nobody set counts as `WARN`.
-/

namespace ScriptInclude

inductive Policy where
  | cmp0024
  deriving DecidableEq, Inhabited

inductive PolicyStatus where
  | old
  | warn
  | new
  | requiredIfUsed
  | requiredAlways
  deriving DecidableEq, Inhabited

inductive PolicyError where
  | unknownPolicy (text : String)
  | unknownStatus (text : String)
  deriving DecidableEq

def PolicyError.message : PolicyError → String
  | .unknownPolicy text => "Unknown policy '" ++ text ++ "'"
  | .unknownStatus text => "Unknown policy status '" ++ text ++ "'"

/-! ## Names -/

namespace Policy

def all : List Policy := [.cmp0024]

def name : Policy → String
  | .cmp0024 => "CMP0024"

def summary : Policy → String
  | .cmp0024 => "Disallow include export result."

def ofName? (text : String) : Option Policy := all.find? fun p => p.name == text

/-- Reads a name in any case, with blanks around it. -/
def read (text : String) : Except PolicyError Policy :=
  match all.find? fun p => Text.sameLetters p.name (Text.trim text) with
  | some p => .ok p
  | none => .error (.unknownPolicy text)

/-- What an author is told who uses the construct while the policy is not set. -/
def warning (p : Policy) : String :=
  "Policy " ++ p.name ++ " is not set: " ++ p.summary ++ "  Run \"cmake --help-policy " ++ p.name ++
    "\" for policy details.  Use the cmake_policy command to set the policy and suppress this warning."

end Policy

namespace PolicyStatus

def all : List PolicyStatus := [.old, .warn, .new, .requiredIfUsed, .requiredAlways]

def name : PolicyStatus → String
  | .old => "OLD"
  | .warn => "WARN"
  | .new => "NEW"
  | .requiredIfUsed => "REQUIRED_IF_USED"
  | .requiredAlways => "REQUIRED_ALWAYS"

def ofName? (text : String) : Option PolicyStatus := all.find? fun s => s.name == text

/-- Reads a name in any case, with blanks around it. -/
def read (text : String) : Except PolicyError PolicyStatus :=
  match all.find? fun s => Text.sameLetters s.name (Text.trim text) with
  | some s => .ok s
  | none => .error (.unknownStatus text)

end PolicyStatus

/-! ## What a status asks for -/

inductive PolicyAction where
  | proceed
  | warn
  | abort
  deriving DecidableEq

def PolicyStatus.action : PolicyStatus → PolicyAction
  | .old => .proceed
  | .warn => .warn
  | .new | .requiredIfUsed | .requiredAlways => .abort

/-! ## Settings -/

structure PolicySettings where
  status? : Policy → Option PolicyStatus

namespace PolicySettings

def unset : PolicySettings := ⟨fun _ => none⟩

instance : Inhabited PolicySettings := ⟨unset⟩

def isSet (s : PolicySettings) (p : Policy) : Bool := (s.status? p).isSome

def status (s : PolicySettings) (p : Policy) : PolicyStatus := (s.status? p).getD .warn

def set (s : PolicySettings) (p : Policy) (v : PolicyStatus) : PolicySettings :=
  ⟨fun q => if q = p then some v else s.status? q⟩

/-- Sets policies in the order given; names are read as `Policy.read` does. -/
def setAll : List (String × PolicyStatus) → PolicySettings → Except PolicyError PolicySettings
  | [], s => .ok s
  | (name, v) :: rest, s => do setAll rest (s.set (← Policy.read name) v)

/-- Settings by name, taken in the order of the names. -/
def ofNamed (d : Dictionary PolicyStatus) : Except PolicyError PolicySettings := setAll d.entries unset

@[simp]
theorem status_unset (p : Policy) : unset.status p = .warn := rfl

@[simp]
theorem status_set (s : PolicySettings) (p : Policy) (v : PolicyStatus) : (s.set p v).status p = v := by
  simp [status, set]

end PolicySettings

end ScriptInclude
