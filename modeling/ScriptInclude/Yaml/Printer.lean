import ScriptInclude.Yaml.Numeral
import ScriptInclude.Yaml.Source

/-!
# Writing YAML scalars

A text is written plain if it reads back as the same text. It is quoted once where the plain form would
mean something else, quoted twice where it has characters that need escapes, and written as a block if it
has line feeds.
-/

namespace ScriptInclude.Yaml

inductive Style where
  | plain
  | single
  | double
  | literal
  deriving DecidableEq

/-! ## What a text holds -/

/-- The line breaks of a text that was not read from a file. -/
def isAnyBreak (c : Char) : Bool := isBreak c || c = '\r' || c = nextLine

/-- The end of a text counts as a gap, and so does a zero character. -/
def isAnyGap : Option Char → Bool
  | some c => isSpaceOrTab c || isAnyBreak c || c.toNat = 0
  | none => true

def isPrintable (c : Char) : Bool :=
  c = '\n' || (0x20 ≤ c.toNat && c.toNat ≤ 0x7E) ||
    (0xA0 ≤ c.toNat && c.toNat ≤ 0xFFFD && c ≠ byteOrderMark) || 0x10000 ≤ c.toNat

/-- Whether two neighbours, in this order, are among the characters. -/
def hasNeighbours (p q : Char → Bool) (cs : List Char) : Bool := (cs.zip cs.tail).any fun (a, b) => p a && q b

def isSpaceChar (c : Char) : Bool := c = ' '

def isFirstIndicator (c : Char) : Bool := "#,[]&*!|>'\"%@".toList.contains c || ['{', '}', Char.ofNat 0x60].contains c

def startsLikeMarkup : List Char → Bool
  | c :: cs =>
    ['-', '-', '-'].isPrefixOf (c :: cs) || ['.', '.', '.'].isPrefixOf (c :: cs) || isFirstIndicator c ||
      ((c = '?' || c = ':' || c = '-') && isAnyGap cs.head?)
  | [] => false

/-- Whether a later colon would make a key, or a later number sign a comment. -/
def holdsMarkup : List Char → Bool
  | c :: d :: cs => (d = ':' && isAnyGap cs.head?) || (d = '#' && isAnyGap (some c)) || holdsMarkup (d :: cs)
  | _ => false

def hasBreaks (cs : List Char) : Bool := cs.any isAnyBreak

def isSpecial (cs : List Char) : Bool := cs.any (!isPrintable ·) || hasNeighbours isSpaceChar isAnyBreak cs

def plainAllowed (cs : List Char) : Bool :=
  let outer (c : Option Char) : Bool := c.any fun c => isSpaceChar c || isAnyBreak c
  !(outer cs.head? || outer cs.getLast? || hasBreaks cs || isSpecial cs || startsLikeMarkup cs || holdsMarkup cs)

def singleAllowed (cs : List Char) : Bool := !(isSpecial cs || hasNeighbours isAnyBreak isSpaceChar cs)

def literalAllowed (cs : List Char) : Bool := !(isSpecial cs || cs.getLast? = some ' ')

def style (s : String) : Style :=
  let cs := s.toList
  if cs.contains '\n' then (if literalAllowed cs then .literal else .double)
  else if !readsAsOther s && plainAllowed cs then .plain
  else if singleAllowed cs then .single
  else .double

/-! ## Writing -/

def margin (indent : Nat) : List Char := List.replicate indent ' '

/-- Puts a margin in front of each text that follows a line break; `fresh` holds after one. -/
def withMargin (indent : Nat) (write : Char → List Char) (fresh : Bool) : List Char → List Char
  | [] => []
  | c :: cs =>
    if isBreak c then c :: withMargin indent write true cs
    else (if fresh then margin indent else []) ++ write c ++ withMargin indent write false cs

def doubled (c : Char) : List Char := if c = '\'' then ['\'', '\''] else [c]

def singleQuoted (indent : Nat) (cs : List Char) : List Char :=
  let closing := if cs.getLast?.any isBreak then margin indent else []
  ['\''] ++ withMargin indent doubled false cs ++ closing ++ ['\'']

def upperHex (n : Nat) : Char := Char.ofNat (if n < 10 then n + 48 else n + 55)

def hexDigits (width n : Nat) : List Char :=
  (List.range width).reverse.map fun k => upperHex (n / Nat.pow 16 k % 16)

def letterEscape? (n : Nat) : Option Char :=
  [(0, '0'), (7, 'a'), (8, 'b'), (9, 't'), (10, 'n'), (11, 'v'), (12, 'f'), (13, 'r'), (0x1B, 'e'), (0x22, '"'),
    (0x5C, '\\'), (0x85, 'N'), (0xA0, '_'), (0x2028, 'L'), (0x2029, 'P')].lookup n

def escaped (c : Char) : List Char :=
  if !isPrintable c || isAnyBreak c || c = '"' || c = '\\' then
    match letterEscape? c.toNat with
    | some e => ['\\', e]
    | none =>
      if c.toNat ≤ 0xFF then ['\\', 'x'] ++ hexDigits 2 c.toNat
      else if c.toNat ≤ 0xFFFF then ['\\', 'u'] ++ hexDigits 4 c.toNat
      else ['\\', 'U'] ++ hexDigits 8 c.toNat
  else [c]

def doubleQuoted (cs : List Char) : List Char := ['"'] ++ cs.flatMap escaped ++ ['"']

/-- The indicators after `|`: the indentation if the text begins with a blank or break, and what becomes
of the line breaks at its end. -/
def literalHints (cs : List Char) : List Char :=
  let lead := if cs.head?.any fun c => isSpaceChar c || isBreak c then ['2'] else []
  let tail := match cs.reverse with
    | [] => ['-']
    | [c] => if isBreak c then ['+'] else ['-']
    | c :: d :: _ => if !isBreak c then ['-'] else if isBreak d then ['+'] else []
  lead ++ tail

/-- A block scalar; the line break after it is left out if the text has one there itself. -/
def literal (indent : Nat) (cs : List Char) : List Char :=
  ['|'] ++ literalHints cs ++ ['\n'] ++ withMargin indent (fun c => [c]) true cs

def write (indent : Nat) (s : String) : List Char :=
  let cs := s.toList
  match style s with
  | .plain => cs
  | .single => singleQuoted indent cs
  | .double => doubleQuoted cs
  | .literal => literal indent cs

def writeLine (indent : Nat) (s : String) : List Char :=
  let text := write indent s
  if style s = .literal ∧ text.getLast?.any isBreak then text else text ++ ['\n']

/-! ## Keys -/

def maxSimpleKey : Nat := 128

/-- A key of one line that is not too long stands before its colon. -/
def isSimpleKey (s : String) : Bool := !hasBreaks s.toList && s.utf8ByteSize ≤ maxSimpleKey

def writeEntry (indent : Nat) (key value : String) : List Char :=
  if isSimpleKey key then
    margin indent ++ write (indent + 2) key ++ [':', ' '] ++ writeLine (indent + 2) value
  else
    margin indent ++ ['?', ' '] ++ writeLine (indent + 2) key ++ margin indent ++ [':', ' '] ++
      writeLine (indent + 2) value

def writeItem (indent : Nat) (s : String) : List Char := margin indent ++ ['-', ' '] ++ writeLine (indent + 2) s

end ScriptInclude.Yaml
