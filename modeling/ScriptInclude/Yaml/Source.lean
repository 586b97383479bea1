/-!
# YAML source text

The characters of a YAML text with their places. All forms of line break but the line and paragraph
separators read as a line feed. A byte order mark in front is dropped, and characters outside the
printable set make the text unreadable.
-/

namespace ScriptInclude.Yaml

structure Glyph where
  char : Char
  index : Nat
  line : Nat
  column : Nat
  deriving Inhabited

/-! ## Classes of characters -/

def byteOrderMark : Char := Char.ofNat 0xFEFF

def nextLine : Char := Char.ofNat 0x85

def lineSeparator : Char := Char.ofNat 0x2028

def paragraphSeparator : Char := Char.ofNat 0x2029

/-- The line breaks that are left after reading. -/
def isBreak (c : Char) : Bool := c = '\n' || c = lineSeparator || c = paragraphSeparator

def isSpaceOrTab (c : Char) : Bool := c = ' ' || c = '\t'

def isGap (c : Char) : Bool := isSpaceOrTab c || isBreak c

def isWordChar (c : Char) : Bool := c.isAlphanum || c = '_' || c = '-'

def isReadable (c : Char) : Bool :=
  c = '\t' || c = '\n' || c = '\r' || c = nextLine || (0x20 ≤ c.toNat && c.toNat ≤ 0x7E) ||
    (0xA0 ≤ c.toNat && c.toNat ≤ 0xFFFD) || 0x10000 ≤ c.toNat

/-! ## Places -/

/-- Carriage returns and next-line characters as line feeds. -/
def unifyBreaks : List Char → List Char
  | '\r' :: '\n' :: cs => '\n' :: unifyBreaks cs
  | '\r' :: cs => '\n' :: unifyBreaks cs
  | c :: cs => (if c = nextLine then '\n' else c) :: unifyBreaks cs
  | [] => []

def place (index line column : Nat) : List Char → List Glyph
  | [] => []
  | c :: cs =>
    ⟨c, index, line, column⟩ ::
      if isBreak c then place (index + 1) (line + 1) 0 cs else place (index + 1) line (column + 1) cs

def glyphs? (text : String) : Option (List Glyph) :=
  let cs := match text.toList with
    | c :: cs => if c = byteOrderMark then cs else c :: cs
    | [] => []
  if cs.all isReadable then some (place 0 0 0 (unifyBreaks cs)) else none

/-! ## Looking ahead -/

def startsWith (c : Char) : List Glyph → Bool
  | g :: _ => g.char = c
  | [] => false

def atGap : List Glyph → Bool
  | g :: _ => isGap g.char
  | [] => true

def atLineEnd : List Glyph → Bool
  | g :: _ => isBreak g.char
  | [] => true

/-- `---` or `...` at the start of a line, with a gap after it. -/
def atMarker (c : Char) : List Glyph → Bool
  | g₁ :: g₂ :: g₃ :: rest => g₁.column = 0 && g₁.char = c && g₂.char = c && g₃.char = c && atGap rest
  | _ => false

def atDocumentMarker (gs : List Glyph) : Bool := atMarker '-' gs || atMarker '.' gs

def skipBlanks (gs : List Glyph) : List Glyph := gs.dropWhile fun g => isSpaceOrTab g.char

/-- Blanks and a comment, up to the line end. -/
def skipToLineEnd (gs : List Glyph) : List Glyph :=
  match skipBlanks gs with
  | g :: rest => if g.char = '#' then rest.dropWhile fun g => !isBreak g.char else g :: rest
  | [] => []

end ScriptInclude.Yaml
