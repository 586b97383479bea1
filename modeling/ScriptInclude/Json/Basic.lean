/-!
# JSON values

Objects keep their members in order. Numbers are kept as they are written.
-/

namespace ScriptInclude

inductive Json where
  | null
  | bool (b : Bool)
  | number (text : String)
  | string (text : String)
  | array (items : List Json)
  | object (members : List (String × Json))
  deriving Inhabited

end ScriptInclude
