import ScriptInclude.Yaml.Scalar

/-!
# YAML tags, anchors and directives

A tag is a handle and a suffix; the handle stands for a text that a directive declares. Escapes in a tag
name single octets, so tags are kept as octets.
-/

namespace ScriptInclude.Yaml

abbrev Octets := List UInt8

def octets (s : String) : Octets := s.toUTF8.toList

def charsOf (gs : List Glyph) : List Char := gs.map Glyph.char

/-- The longest run of name characters, and the rest. -/
def word (gs : List Glyph) : List Char × List Glyph :=
  (charsOf (gs.takeWhile fun g => isWordChar g.char), gs.dropWhile fun g => isWordChar g.char)

/-! ## Anchors -/

def endsAnchor : List Glyph → Bool
  | g :: _ => isGap g.char || ['?', ':', ',', ']', '}', '%', '@', Char.ofNat 0x60].contains g.char
  | [] => true

def anchorName? (gs : List Glyph) : Option (String × List Glyph) :=
  let (name, rest) := word gs
  if name ≠ [] ∧ endsAnchor rest then some (String.ofList name, rest) else none

/-! ## Tags -/

structure Tag where
  handle : String
  suffix : Octets

def isTagChar (verbatim : Bool) (c : Char) : Bool :=
  isWordChar c || ";/?:@&=+$.!~*'()".toList.contains c || (verbatim && [',', '[', ']'].contains c)

/-- How many octets follow a leading one in UTF-8. -/
def trailingOctets? (n : Nat) : Option Nat :=
  if n < 0x80 then some 0
  else if 0xC0 ≤ n ∧ n < 0xE0 then some 1
  else if 0xE0 ≤ n ∧ n < 0xF0 then some 2
  else if 0xF0 ≤ n ∧ n < 0xF8 then some 3
  else none

/-- The text of a tag. `pending` is how many trailing octets of a character have still to be escaped. -/
def tagText? (verbatim : Bool) (pending : Nat) : List Glyph → Option (Octets × List Glyph)
  | g :: h :: l :: gs =>
    if g.char = '%' then do
      let n := 16 * (← hexValue? h.char) + (← hexValue? l.char)
      let left ← if pending = 0 then trailingOctets? n
        else if 0x80 ≤ n ∧ n < 0xC0 then some (pending - 1) else none
      let (text, rest) ← tagText? verbatim left gs
      return (n.toUInt8 :: text, rest)
    else if pending ≠ 0 then none
    else if isTagChar verbatim g.char then do
      let (text, rest) ← tagText? verbatim 0 (h :: l :: gs)
      return (octets (String.singleton g.char) ++ text, rest)
    else some ([], g :: h :: l :: gs)
  | g :: gs =>
    if g.char = '%' ∨ pending ≠ 0 then none
    else if isTagChar verbatim g.char then do
      let (text, rest) ← tagText? verbatim 0 gs
      return (octets (String.singleton g.char) ++ text, rest)
    else some ([], g :: gs)
  | [] => if pending = 0 then some ([], []) else none

/-- An exclamation mark, a word, and maybe a second mark, which makes it a handle. -/
def handle? : List Glyph → Option (List Char × Bool × List Glyph)
  | g :: gs =>
    if g.char = '!' then
      let (w, rest) := word gs
      match rest with
      | h :: rest' => if h.char = '!' then some ('!' :: w ++ ['!'], true, rest') else some ('!' :: w, false, rest)
      | [] => some ('!' :: w, false, [])
    else none
  | [] => none

def endsTag (flow : Bool) (gs : List Glyph) : Bool := atGap gs || (flow && startsWith ',' gs)

/-- A tag, its exclamation mark included. -/
def tag? (flow : Bool) (gs : List Glyph) : Option (Tag × List Glyph) := do
  let (tag, rest) ← match gs with
    | g :: h :: rest =>
      if g.char = '!' ∧ h.char = '<' then do
        let (text, rest) ← tagText? true 0 rest
        match rest with
        | k :: rest => if k.char = '>' ∧ text ≠ [] then some (⟨"", text⟩, rest) else none
        | [] => none
      else shorthand? gs
    | _ => shorthand? gs
  if endsTag flow rest then some (tag, rest) else none
where
  /-- `!handle!suffix`, `!suffix` or a lone `!`. -/
  shorthand? (gs : List Glyph) : Option (Tag × List Glyph) := do
    let (handle, closed, rest) ← handle? gs
    let (text, rest) ← tagText? false 0 rest
    if closed then
      if text = [] then none else some (⟨String.ofList handle, text⟩, rest)
    else
      let suffix := octets (String.ofList handle.tail) ++ text
      if suffix = [] then some (⟨"", octets "!"⟩, rest) else some (⟨"!", suffix⟩, rest)

/-! ## Directives -/

inductive YamlDirective where
  | version (major minor : Nat)
  | tag (handle : String) (text : Octets)

def versionNumber? (gs : List Glyph) : Option (Nat × List Glyph) :=
  let digits := gs.takeWhile fun g => g.char.isDigit
  if digits.isEmpty || 9 < digits.length then none
  else some (digits.foldl (fun n g => 10 * n + (g.char.toNat - 48)) 0, gs.drop digits.length)

def version? (gs : List Glyph) : Option (YamlDirective × List Glyph) := do
  let (major, gs) ← versionNumber? (skipBlanks gs)
  match gs with
  | g :: gs =>
    if g.char = '.' then
      let (minor, gs) ← versionNumber? gs
      return (.version major minor, gs)
    else none
  | [] => none

/-- The blanks that must stand between the parts of a directive. -/
def blanks? : List Glyph → Option (List Glyph)
  | g :: gs => if isSpaceOrTab g.char then some (skipBlanks gs) else none
  | [] => none

def tagDirective? (gs : List Glyph) : Option (YamlDirective × List Glyph) := do
  let (handle, closed, gs) ← handle? (skipBlanks gs)
  if !closed && handle ≠ ['!'] then none
  else
    let (text, gs) ← tagText? true 0 (← blanks? gs)
    if text ≠ [] ∧ atGap gs then some (.tag (String.ofList handle) text, gs) else none

/-- A directive after its percent sign, with the rest of its line. -/
def directive? (gs : List Glyph) : Option (YamlDirective × List Glyph) := do
  let (name, rest) := word gs
  if name = [] ∨ !atGap rest then none
  else
    let (d, rest) ← match String.ofList name with
      | "YAML" => version? rest
      | "TAG" => tagDirective? rest
      | _ => none
    match skipToLineEnd rest with
    | g :: rest => if isBreak g.char then some (d, rest) else none
    | [] => some (d, [])

end ScriptInclude.Yaml
