import ScriptInclude.Json.Printer
import ScriptInclude.Json.Shape
import ScriptInclude.Message

/-!
# Messages as JSON

A message is written as an object with its level and text. It is read from such an object, which may
have other members too, or from an array of the two. A level is its name, or an object that maps the
name to `null`.
-/

namespace ScriptInclude.Message

def toJson (m : Message) : Json := .object [("level", .string m.level.name), ("text", .string m.text)]

def jsonText (m : Message) : String := m.toJson.compact

/-! ## Reading -/

open Json (Shape)

def levelOf? : Shape → Option Level
  | .string (some name) => Level.ofName? name
  | .object [(some name, .null)] => Level.ofName? name
  | _ => none

def textOf? : Shape → Option String
  | .string text? => text?
  | _ => none

/-- Reads members into what is known so far; a level or text given twice is refused. -/
def ofMembers? (level? : Option Level) (text? : Option String) : List (Option String × Shape) → Option Message
  | [] => do return ⟨← level?, ← text?⟩
  | (none, _) :: _ => none
  | (some name, x) :: rest =>
    if name = "level" then
      if level?.isSome then none else do ofMembers? (some (← levelOf? x)) text? rest
    else if name = "text" then
      if text?.isSome then none else do ofMembers? level? (some (← textOf? x)) rest
    else ofMembers? level? text? rest

def ofShape? : Shape → Option Message
  | .object members => ofMembers? none none members
  | .array [level, text] => do return ⟨← levelOf? level, ← textOf? text⟩
  | _ => none

def ofJsonText? (text : String) : Option Message := (Shape.read? text).bind ofShape?

end ScriptInclude.Message
