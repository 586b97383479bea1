/-!
# Texts that read as something else

A plain scalar such as `null`, `true` or `1.5` is taken for a value that is no text. Digits with a needless
zero in front are a text to some readers and a number to others. A decimal whose value is too large for a
double float stays a text.
-/

namespace ScriptInclude.Yaml

def isNullWord (s : String) : Bool := ["", "null", "Null", "NULL", "~"].contains s

def isTruthWord (s : String) : Bool := ["true", "True", "TRUE", "false", "False", "FALSE"].contains s

/-! ## Whole numbers -/

def digitValue? (radix : Nat) (c : Char) : Option Nat :=
  let v := if c.isDigit then c.toNat - 48
    else if 'a' ≤ c ∧ c ≤ 'f' then c.toNat - 87
    else if 'A' ≤ c ∧ c ≤ 'F' then c.toNat - 55
    else radix
  if v < radix then some v else none

def wholeNumber? (radix : Nat) (cs : List Char) : Option Nat :=
  if cs.isEmpty then none else cs.foldlM (fun n c => (digitValue? radix c).map (radix * n + ·)) 0

/-- Digits with or without a sign that begin with a zero and go on. -/
def hasNeedlessZero (cs : List Char) : Bool :=
  let digits := match cs with
    | '-' :: rest => rest
    | '+' :: rest => rest
    | rest => rest
  match digits with
  | '0' :: rest => !rest.isEmpty && rest.all Char.isDigit
  | _ => false

/-- The radix that a leading `0x`, `0o` or `0b` gives, and the digits after it. -/
def radixForm? : List Char → Option (Nat × List Char)
  | '0' :: 'x' :: rest => some (16, rest)
  | '0' :: 'o' :: rest => some (8, rest)
  | '0' :: 'b' :: rest => some (2, rest)
  | _ => none

def isMagnitude (limit : Nat) (cs : List Char) : Bool :=
  let form := (radixForm? cs).getD (10, cs)
  match wholeNumber? form.1 form.2 with
  | some n => n ≤ limit
  | none => false

/-- A whole number of 128 bits, with or without a sign. -/
def isInteger (cs : List Char) : Bool :=
  match cs with
  | '+' :: rest => isMagnitude (Nat.pow 2 128 - 1) rest
  | '-' :: rest => isMagnitude (Nat.pow 2 127) rest
  | rest => isMagnitude (Nat.pow 2 128 - 1) rest

/-! ## Decimals -/

/-- The digits of a decimal without its point, and its exponent. -/
structure Decimal where
  digits : List Char
  exponent : Int

/-- A whole number with or without a sign, after the mark of an exponent. -/
def exponent? (cs : List Char) : Option Int :=
  match cs with
  | '-' :: rest => (wholeNumber? 10 rest).map fun n => -(n : Int)
  | '+' :: rest => (wholeNumber? 10 rest).map fun n => (n : Int)
  | rest => (wholeNumber? 10 rest).map fun n => (n : Int)

/-- Digits with at most one point among them or beside them, and maybe an exponent. -/
def decimal? (cs : List Char) : Option Decimal := do
  let whole := cs.takeWhile Char.isDigit
  let rest := cs.dropWhile Char.isDigit
  let (fraction, rest) := match rest with
    | '.' :: rest => (rest.takeWhile Char.isDigit, rest.dropWhile Char.isDigit)
    | rest => ([], rest)
  let exponent ← match rest with
    | [] => some 0
    | c :: rest => if c = 'e' ∨ c = 'E' then exponent? rest else none
  if whole.isEmpty && fraction.isEmpty then none
  else some ⟨whole ++ fraction, exponent - fraction.length⟩

/-- The least magnitude that no finite double float is nearest to. -/
def overflow : Nat := (Nat.pow 2 54 - 1) * Nat.pow 2 970

/-- Whether the value is below `overflow`. With so many digits it cannot be, with so few it must be. -/
def Decimal.isFinite (d : Decimal) : Bool :=
  let significant := d.digits.dropWhile (· = '0')
  let size : Int := significant.length + d.exponent
  if significant.isEmpty || decide (size < 300) then true
  else if decide (310 < size) then false
  else
    let n := (wholeNumber? 10 significant).getD 0
    if d.exponent < 0 then n < overflow * Nat.pow 10 d.exponent.natAbs
    else n * Nat.pow 10 d.exponent.toNat < overflow

def isInfinityWord (s : String) : Bool := [".inf", ".Inf", ".INF"].contains s

/-- A finite decimal, or one of the words for what is none. -/
def isFloat (s : String) : Bool :=
  let cs := s.toList
  let plain := match cs with
    | '+' :: rest => rest
    | rest => rest
  let unsigned := match cs with
    | '+' :: rest => rest
    | '-' :: rest => rest
    | rest => rest
  isInfinityWord (String.ofList plain) || isInfinityWord (String.ofList unsigned) ||
    [".nan", ".NaN", ".NAN"].contains s ||
    match decimal? unsigned with
      | some d => d.isFinite
      | none => false

/-- Some reader takes a plain scalar with this text for null, a truth value or a number. -/
def readsAsOther (s : String) : Bool :=
  isNullWord s || isTruthWord s || hasNeedlessZero s.toList || isInteger s.toList || isFloat s

end ScriptInclude.Yaml
