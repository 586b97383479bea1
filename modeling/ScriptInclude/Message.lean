/-!
# Messages

What is told to the author of a script, by level. A fatal error stays on record for the whole run.
-/

namespace ScriptInclude

inductive Level where
  | info
  | authorWarning
  | warning
  | fatalError
  deriving DecidableEq, Inhabited

namespace Level

def all : List Level := [.info, .authorWarning, .warning, .fatalError]

def name : Level → String
  | .info => "info"
  | .authorWarning => "author-warning"
  | .warning => "warning"
  | .fatalError => "fatal-error"

def ofName? (text : String) : Option Level := all.find? fun l => l.name == text

def rank : Level → Nat
  | .info => 0
  | .authorWarning => 1
  | .warning => 2
  | .fatalError => 3

instance : Ord Level := ⟨fun a b => compare a.rank b.rank⟩

def isFatal (l : Level) : Bool := l == .fatalError

end Level

structure Message where
  level : Level
  text : String
  deriving DecidableEq, Inhabited

namespace Message

def isFatal (m : Message) : Bool := m.level.isFatal

def display (m : Message) : String := m.level.name ++ ": " ++ m.text

end Message

end ScriptInclude
