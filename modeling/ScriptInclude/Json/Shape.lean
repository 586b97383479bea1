import ScriptInclude.Json.Quoted

/-!
# Reading JSON

The shape of a JSON text: its arrays and objects, and the scalars in them. A number is kept as it is
written. The escapes of a string may name half a surrogate pair; such a string has a place in the syntax
but stands for no text.
-/

namespace ScriptInclude.Json

inductive Shape where
  | null
  | bool (b : Bool)
  | number (text : String)
  | string (text? : Option String)
  | array (items : List Shape)
  | object (members : List (Option String × Shape))
  deriving Inhabited

/-! ## Strings -/

/-- What one character or escape of a string stands for. -/
inductive CodeUnit where
  | char (c : Char)
  | code (n : Nat)

def hexValue? (c : Char) : Option Nat :=
  if '0' ≤ c ∧ c ≤ '9' then some (c.toNat - 48)
  else if 'a' ≤ c ∧ c ≤ 'f' then some (c.toNat - 87)
  else if 'A' ≤ c ∧ c ≤ 'F' then some (c.toNat - 55)
  else none

def hexNumber? (digits : List Char) : Option Nat :=
  digits.foldlM (fun n c => (hexValue? c).map (16 * n + ·)) 0

def shortMeaning? : Char → Option Char
  | '"' => some '"'
  | '\\' => some '\\'
  | '/' => some '/'
  | 'b' => some (Char.ofNat 8)
  | 'f' => some (Char.ofNat 12)
  | 'n' => some '\n'
  | 'r' => some '\r'
  | 't' => some '\t'
  | _ => none

/-- The units up to the closing quote, and what follows it. -/
def units? : List Char → Option (List CodeUnit × List Char)
  | [] => none
  | '"' :: rest => some ([], rest)
  | '\\' :: 'u' :: a :: b :: c :: d :: rest => do
    let n ← hexNumber? [a, b, c, d]
    let (us, rest) ← units? rest
    return (.code n :: us, rest)
  | '\\' :: e :: rest => do
    let c ← shortMeaning? e
    let (us, rest) ← units? rest
    return (.char c :: us, rest)
  | c :: rest =>
    if c.toNat < 32 then none
    else do
      let (us, rest) ← units? rest
      return (.char c :: us, rest)

def isHighHalf (n : Nat) : Bool := 0xD800 ≤ n && n < 0xDC00

def isLowHalf (n : Nat) : Bool := 0xDC00 ≤ n && n < 0xE000

/-- Joins the halves of surrogate pairs; there is no text if a half is alone. -/
def textOf? : List CodeUnit → Option (List Char)
  | [] => some []
  | .char c :: us => (textOf? us).map (c :: ·)
  | .code n :: .code m :: us =>
    if isHighHalf n then
      if isLowHalf m then (textOf? us).map (Char.ofNat (0x10000 + (n - 0xD800) * 0x400 + (m - 0xDC00)) :: ·)
      else none
    else if isLowHalf n then none
    else (textOf? (.code m :: us)).map (Char.ofNat n :: ·)
  | .code n :: us =>
    if isHighHalf n || isLowHalf n then none else (textOf? us).map (Char.ofNat n :: ·)

/-- A string after its opening quote. -/
def string? (cs : List Char) : Option (Option String × List Char) :=
  (units? cs).map fun (us, rest) => ((textOf? us).map String.ofList, rest)

/-! ## Numbers -/

def isDigit (c : Char) : Bool := '0' ≤ c && c ≤ '9'

def digits? (cs : List Char) : Option (List Char) :=
  match cs with
  | c :: rest => if isDigit c then some (rest.dropWhile isDigit) else none
  | [] => none

/-- The whole part, which has no needless zero in front. -/
def wholePart? : List Char → Option (List Char)
  | '0' :: c :: rest => if isDigit c then none else some (c :: rest)
  | cs => digits? cs

def fraction? : List Char → Option (List Char)
  | '.' :: rest => digits? rest
  | cs => some cs

def exponent? : List Char → Option (List Char)
  | c :: rest =>
    if c = 'e' ∨ c = 'E' then
      match rest with
      | s :: rest' => if s = '+' ∨ s = '-' then digits? rest' else digits? rest
      | [] => none
    else some (c :: rest)
  | [] => some []

def number? (cs : List Char) : Option (List Char) := do
  let cs := match cs with
    | '-' :: rest => rest
    | cs => cs
  exponent? (← fraction? (← wholePart? cs))

/-! ## Values -/

def isSpace (c : Char) : Bool := c = ' ' || c = '\n' || c = '\t' || c = '\r'

def skip (cs : List Char) : List Char := cs.dropWhile isSpace

def keyword? (word : String) (cs : List Char) : Option (List Char) :=
  let w := word.toList
  if w.isPrefixOf cs then some (cs.drop w.length) else none

mutual
/-- A value and what follows it. Each call takes one from `fuel`; the length of the text is enough. -/
def value? : Nat → List Char → Option (Shape × List Char)
  | 0, _ => none
  | fuel + 1, cs =>
    match skip cs with
    | '"' :: rest => (string? rest).map fun (s, rest) => (.string s, rest)
    | '[' :: rest =>
      match skip rest with
      | ']' :: rest => some (.array [], rest)
      | rest => (items? fuel rest).map fun (xs, rest) => (.array xs, rest)
    | '{' :: rest =>
      match skip rest with
      | '}' :: rest => some (.object [], rest)
      | rest => (members? fuel rest).map fun (ms, rest) => (.object ms, rest)
    | 'n' :: rest => (keyword? "ull" rest).map fun rest => (.null, rest)
    | 't' :: rest => (keyword? "rue" rest).map fun rest => (.bool true, rest)
    | 'f' :: rest => (keyword? "alse" rest).map fun rest => (.bool false, rest)
    | cs => (number? cs).map fun rest => (.number (String.ofList (cs.take (cs.length - rest.length))), rest)
def items? : Nat → List Char → Option (List Shape × List Char)
  | 0, _ => none
  | fuel + 1, cs => do
    let (x, rest) ← value? fuel cs
    match skip rest with
    | ',' :: rest =>
      let (xs, rest) ← items? fuel rest
      return (x :: xs, rest)
    | ']' :: rest => return ([x], rest)
    | _ => none
def members? : Nat → List Char → Option (List (Option String × Shape) × List Char)
  | 0, _ => none
  | fuel + 1, cs =>
    match skip cs with
    | '"' :: rest => do
      let (name, rest) ← string? rest
      match skip rest with
      | ':' :: rest =>
        let (x, rest) ← value? fuel rest
        match skip rest with
        | ',' :: rest =>
          let (ms, rest) ← members? fuel rest
          return ((name, x) :: ms, rest)
        | '}' :: rest => return ([(name, x)], rest)
        | _ => none
      | _ => none
    | _ => none
end

/-- A text that is one value with blanks around it. -/
def Shape.read? (text : String) : Option Shape :=
  let cs := text.toList
  match value? (2 * cs.length + 1) cs with
  | some (x, rest) => if skip rest = [] then some x else none
  | none => none

end ScriptInclude.Json
