import ScriptInclude.Report.Basic
import ScriptInclude.Text.Split

/-!
# Reports for people

The call, its messages, the files generated, the variables, and last how it ended. A message keeps its
lines, the later ones deeper than the first. Colours only put escape sequences around words.
-/

namespace ScriptInclude.Report

inductive Colour where
  | bold
  | red
  | green
  | yellow
  | cyan
  | grey

def Colour.code : Colour → String
  | .bold => "1"
  | .red => "31"
  | .green => "32"
  | .yellow => "33"
  | .cyan => "36"
  | .grey => "90"

def paint (colours : Bool) (c : Colour) (text : String) : String :=
  if colours then "\x1b[" ++ c.code ++ "m" ++ text ++ "\x1b[0m" else text

def levelColour : Level → Colour
  | .fatalError => .red
  | .warning | .authorWarning => .yellow
  | .info => .cyan

/-- The lines of a text, without blanks at its end. -/
def textLines (text : String) : List String :=
  (Text.lines (Text.trimEndChars text.toList)).map String.ofList

def messageLines (colours : Bool) (m : Message) : List String :=
  let lines := textLines m.text
  ("  " ++ paint colours (levelColour m.level) m.level.name ++ ": " ++ lines.headD "") ::
    lines.tail.map ("    " ++ ·)

def ending (colours : Bool) : Result → String
  | .ok (.loaded path) => paint colours .green "loaded" ++ " " ++ path.text
  | .ok .notLoaded => paint colours .yellow "not loaded"
  | .ok .ignored => paint colours .grey "ignored"
  | .error e => paint colours .red "error:" ++ " " ++ e.message

def humanLines (colours : Bool) (r : Report) : List String :=
  paint colours .bold r.call :: r.messages.flatMap (messageLines colours) ++
    r.generated.map (fun p => "  " ++ paint colours .cyan "generated" ++ " " ++ p.text) ++
    r.bindings.entries.map (fun (name, value) => "  " ++ paint colours .cyan name ++ " = " ++ value) ++
    ["  " ++ ending colours r.result]

def human (colours : Bool) (r : Report) : String := "\n".intercalate (r.humanLines colours)

end ScriptInclude.Report
