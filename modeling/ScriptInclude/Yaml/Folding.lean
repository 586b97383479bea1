import ScriptInclude.Yaml.Source

/-!
# Folding lines

Inside a quoted or plain scalar a run of blanks is kept, but a run that has a line break in it is folded:
one break alone is a space, and of several the first is dropped.
-/

namespace ScriptInclude.Yaml

/-- A run of blanks and breaks that may turn out to be inside a scalar. -/
inductive Gap where
  | blanks (cs : List Char)
  | lines (first later : List Char)

namespace Gap

def none : Gap := .blanks []

def add (c : Char) : Gap → Gap
  | .blanks cs => if isBreak c then .lines [c] [] else .blanks (cs ++ [c])
  | .lines first later => if isBreak c then .lines first (later ++ [c]) else .lines first later

def hasLines : Gap → Bool
  | .blanks _ => false
  | .lines _ _ => true

def fold : Gap → List Char
  | .blanks cs => cs
  | .lines ['\n'] [] => [' ']
  | .lines ['\n'] later => later
  | .lines first later => first ++ later

end Gap

end ScriptInclude.Yaml
