import ScriptInclude.Json.Basic
import ScriptInclude.Json.Quoted

/-!
# Writing JSON

Compact text has no blanks. Indented text puts each item on a line of its own, two spaces deeper than
its parent; an empty array or object stays on one line.
-/

namespace ScriptInclude.Json

def openBrace : String := "\x7b"

def closeBrace : String := "\x7d"

/-! ## Compact -/

mutual
def compact : Json → String
  | .null => "null"
  | .bool b => if b then "true" else "false"
  | .number text => text
  | .string text => quote text
  | .array items => "[" ++ ",".intercalate (compactItems items) ++ "]"
  | .object members => openBrace ++ ",".intercalate (compactMembers members) ++ closeBrace
def compactItems : List Json → List String
  | [] => []
  | item :: items => compact item :: compactItems items
def compactMembers : List (String × Json) → List String
  | [] => []
  | (name, value) :: members => (quote name ++ ":" ++ compact value) :: compactMembers members
end

/-! ## Indented -/

def margin (depth : Nat) : String := String.ofList (List.replicate (2 * depth) ' ')

/-- Lines between brackets; nothing between them if there are none. -/
def bracketed (left right : String) (depth : Nat) (lines : List String) : String :=
  if lines.isEmpty then left ++ right
  else
    let inner := margin (depth + 1)
    left ++ "\n" ++ ",\n".intercalate (lines.map (inner ++ ·)) ++ "\n" ++ margin depth ++ right

mutual
def indented (depth : Nat) : Json → String
  | .null => "null"
  | .bool b => if b then "true" else "false"
  | .number text => text
  | .string text => quote text
  | .array items => bracketed "[" "]" depth (indentedItems (depth + 1) items)
  | .object members => bracketed openBrace closeBrace depth (indentedMembers (depth + 1) members)
def indentedItems (depth : Nat) : List Json → List String
  | [] => []
  | item :: items => indented depth item :: indentedItems depth items
def indentedMembers (depth : Nat) : List (String × Json) → List String
  | [] => []
  | (name, value) :: members => (quote name ++ ": " ++ indented depth value) :: indentedMembers depth members
end

def pretty (j : Json) : String := indented 0 j

end ScriptInclude.Json
