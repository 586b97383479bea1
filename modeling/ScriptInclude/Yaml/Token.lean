import ScriptInclude.Yaml.Tag

/-!
# YAML tokens

The tokens of a text. Indentation opens and closes block collections. Where a key can begin the place is
remembered, and if a colon follows in time a key token is put there afterwards: such a key stays on one
line and within 1024 characters.
-/

namespace ScriptInclude.Yaml

inductive Token where
  | directive (d : YamlDirective)
  | documentStart
  | documentEnd
  | streamEnd
  | blockSequenceStart
  | blockMappingStart
  | blockEnd
  | flowSequenceStart
  | flowSequenceEnd
  | flowMappingStart
  | flowMappingEnd
  | blockEntry
  | flowEntry
  | key
  | value
  | reference (name : String)
  | anchor (name : String)
  | tag (t : Tag)
  | scalar (text : List Char) (plain : Bool)

/-- A place where a key may have begun. -/
structure KeyPlace where
  /-- Something has to be a key here, as it stands at the indentation of a block mapping. -/
  required : Bool
  /-- How many tokens come before it. -/
  number : Nat
  index : Nat
  line : Nat
  column : Nat

structure Lexer where
  rest : List Glyph
  tokens : Array Token := #[]
  indent : Int := -1
  /-- The indentations around the present one, the innermost first. -/
  outer : List Int := []
  keyAllowed : Bool := true
  /-- The key places of the flow collections that are open, the innermost first, and of the block. -/
  places : List (Option KeyPlace) := [none]

namespace Lexer

def inFlow (l : Lexer) : Bool := 1 < l.places.length

def emit (l : Lexer) (t : Token) : Lexer := { l with tokens := l.tokens.push t }

def insertToken (l : Lexer) (number : Nat) (t : Token) : Lexer :=
  { l with tokens := l.tokens.insertIdxIfInBounds number t }

def setRest (l : Lexer) (rest : List Glyph) : Lexer := { l with rest := rest }

def allowKey (l : Lexer) (b : Bool) : Lexer := { l with keyAllowed := b }

/-! ## Key places -/

def maxKeyLength : Nat := 1024

/-- Forgets places that are too far back; a required one must not be lost. -/
def dropStale (l : Lexer) (g : Glyph) : Option Lexer := do
  let places ← l.places.mapM fun place? =>
    match place? with
    | some k =>
      if k.line < g.line ∨ k.index + maxKeyLength < g.index then (if k.required then none else some none)
      else some (some k)
    | none => some none
  return { l with places := places }

def forgetPlace (l : Lexer) : Option Lexer :=
  match l.places with
  | some k :: outer => if k.required then none else some { l with places := none :: outer }
  | _ => some l

def rememberPlace (l : Lexer) (g : Glyph) : Option Lexer :=
  if l.keyAllowed then do
    let required := !l.inFlow && l.indent == (g.column : Int)
    let l ← l.forgetPlace
    return { l with places := some ⟨required, l.tokens.size, g.index, g.line, g.column⟩ :: l.places.tail }
  else some l

/-! ## Indentation -/

def roll (l : Lexer) (column : Nat) (place? : Option Nat) (t : Token) : Lexer :=
  if l.inFlow || !decide (l.indent < (column : Int)) then l
  else
    let l := { l with outer := l.indent :: l.outer, indent := column }
    match place? with
    | some number => l.insertToken number t
    | none => l.emit t

def unrollFrom (l : Lexer) (column : Int) : List Int → Lexer
  | [] => l
  | indent :: outer =>
    if column < l.indent then unrollFrom { l.emit .blockEnd with indent := indent, outer := outer } column outer
    else l

def unroll (l : Lexer) (column : Int) : Lexer := if l.inFlow then l else l.unrollFrom column l.outer

/-! ## Blanks between tokens -/

/-- Passes blanks, comments and line breaks. A tab may not stand where a block key could begin. -/
def skipGap (flow : Bool) (keyAllowed inComment : Bool) : List Glyph → Bool × List Glyph
  | [] => (keyAllowed, [])
  | g :: gs =>
    if isBreak g.char then skipGap flow (keyAllowed || !flow) false gs
    else if inComment then skipGap flow keyAllowed true gs
    else if g.char = ' ' || (g.char = '\t' && (flow || !keyAllowed)) then skipGap flow keyAllowed false gs
    else if g.index = 0 && g.char = byteOrderMark then skipGap flow keyAllowed false gs
    else if g.char = '#' then skipGap flow keyAllowed true gs
    else (keyAllowed, g :: gs)

/-! ## Single tokens

Each takes the first glyph of the token and what follows it. -/

/-- Ends all block collections before a token of the document structure. -/
def toDocumentLevel (l : Lexer) : Option Lexer := do return (← (l.unroll (-1)).forgetPlace).allowKey false

def documentMarker (t : Token) (l : Lexer) : Option Lexer := do
  return ((← l.toDocumentLevel).emit t).setRest (l.rest.drop 3)

def directive (rest : List Glyph) (l : Lexer) : Option Lexer := do
  let l ← l.toDocumentLevel
  let (d, rest) ← directive? rest
  return (l.emit (.directive d)).setRest rest

def flowStart (t : Token) (g : Glyph) (rest : List Glyph) (l : Lexer) : Option Lexer := do
  let l ← l.rememberPlace g
  return ({ l with places := none :: l.places, keyAllowed := true }.emit t).setRest rest

def flowEnd (t : Token) (rest : List Glyph) (l : Lexer) : Option Lexer := do
  let l ← l.forgetPlace
  let places := match l.places with
    | _ :: place :: outer => place :: outer
    | places => places
  return ({ l with places := places, keyAllowed := false }.emit t).setRest rest

def flowEntry (rest : List Glyph) (l : Lexer) : Option Lexer := do
  return (((← l.forgetPlace).allowKey true).emit .flowEntry).setRest rest

/-- A dash in a flow collection is left for the reader of the tokens to refuse. -/
def blockEntry (g : Glyph) (rest : List Glyph) (l : Lexer) : Option Lexer := do
  if !l.inFlow && !l.keyAllowed then none
  else
    let l ← (l.roll g.column none .blockSequenceStart).forgetPlace
    return ((l.allowKey true).emit .blockEntry).setRest rest

def explicitKey (g : Glyph) (rest : List Glyph) (l : Lexer) : Option Lexer := do
  if !l.inFlow && !l.keyAllowed then none
  else
    let l ← (l.roll g.column none .blockMappingStart).forgetPlace
    return ((l.allowKey !l.inFlow).emit .key).setRest rest

/-- A colon makes a key of what began at the remembered place. -/
def valueMark (g : Glyph) (rest : List Glyph) (l : Lexer) : Option Lexer :=
  match l.places with
  | some k :: outer =>
    let l := (l.insertToken k.number .key).roll k.column (some k.number) .blockMappingStart
    some (({ l with places := none :: outer, keyAllowed := false }.emit .value).setRest rest)
  | _ =>
    if !l.inFlow && !l.keyAllowed then none
    else
      let l := l.roll g.column none .blockMappingStart
      some (((l.allowKey !l.inFlow).emit .value).setRest rest)

/-- A token that may be a key: the place is remembered, and no other key begins right after it. -/
def contentToken (g : Glyph) (read : Option (Token × List Glyph)) (l : Lexer) : Option Lexer := do
  let l ← l.rememberPlace g
  let (t, rest) ← read
  return ((l.allowKey false).emit t).setRest rest

def plainScalar (g : Glyph) (rest : List Glyph) (l : Lexer) : Option Lexer := do
  let l ← l.rememberPlace g
  let p ← plain? l.inFlow (l.indent + 1) (g :: rest)
  return ((l.allowKey p.passedLine).emit (.scalar p.text true)).setRest p.rest

def blockScalar (literal : Bool) (rest : List Glyph) (l : Lexer) : Option Lexer := do
  let l ← l.forgetPlace
  let (text, rest) ← block? literal l.indent rest
  return ((l.allowKey true).emit (.scalar text false)).setRest rest

/-- The characters that begin no plain scalar, or only before one that is no blank. -/
def isIndicator (c : Char) : Bool :=
  c = '-' || c = '?' || c = ':' || isFlowIndicator c || c = '#' || c = '&' || c = '*' || c = '!' || c = '|' ||
    c = '>' || c = '\'' || c = '"' || c = '%' || c = '@' || c = Char.ofNat 0x60

def startsPlain (flow : Bool) (g : Glyph) (rest : List Glyph) : Bool :=
  let beforeBlank := match rest with
    | h :: _ => isSpaceOrTab h.char
    | [] => false
  !(isGap g.char || isIndicator g.char) || (g.char = '-' && !beforeBlank) ||
    (!flow && (g.char = '?' || g.char = ':') && !atGap rest)

def token (g : Glyph) (rest : List Glyph) (l : Lexer) : Option Lexer :=
  let c := g.char
  if g.column = 0 && c = '%' then l.directive rest
  else if atMarker '-' (g :: rest) then l.documentMarker .documentStart
  else if atMarker '.' (g :: rest) then l.documentMarker .documentEnd
  else if c = '[' then l.flowStart .flowSequenceStart g rest
  else if c = '{' then l.flowStart .flowMappingStart g rest
  else if c = ']' then l.flowEnd .flowSequenceEnd rest
  else if c = '}' then l.flowEnd .flowMappingEnd rest
  else if c = ',' then l.flowEntry rest
  else if c = '-' && atGap rest then l.blockEntry g rest
  else if c = '?' && (l.inFlow || atGap rest) then l.explicitKey g rest
  else if c = ':' && (l.inFlow || atGap rest) then l.valueMark g rest
  else if c = '*' then l.contentToken g ((anchorName? rest).map fun (n, rest) => (.reference n, rest))
  else if c = '&' then l.contentToken g ((anchorName? rest).map fun (n, rest) => (.anchor n, rest))
  else if c = '!' then l.contentToken g ((tag? l.inFlow (g :: rest)).map fun (t, rest) => (.tag t, rest))
  else if c = '|' && !l.inFlow then l.blockScalar true rest
  else if c = '>' && !l.inFlow then l.blockScalar false rest
  else if c = '\'' then l.contentToken g ((quoted? true rest).map fun (s, rest) => (.scalar s false, rest))
  else if c = '"' then l.contentToken g ((quoted? false rest).map fun (s, rest) => (.scalar s false, rest))
  else if startsPlain l.inFlow g rest then l.plainScalar g rest
  else none

/-- Reads one token; at the end of the text, the last one. -/
def step (l : Lexer) : Option (Lexer ⊕ Array Token) :=
  let (keyAllowed, rest) := skipGap l.inFlow l.keyAllowed false l.rest
  let l := { l with keyAllowed := keyAllowed, rest := rest }
  match rest with
  | [] => do return .inr (← l.toDocumentLevel).tokens
  | g :: gs => do return .inl (← ((← l.dropStale g).unroll g.column).token g gs)

/-- Reads to the end. Each token takes a character at least, so the length of the text is enough fuel. -/
def runFor : Nat → Lexer → Option (Array Token)
  | 0, _ => none
  | fuel + 1, l => do
    match ← l.step with
    | .inl l => runFor fuel l
    | .inr tokens => return tokens.push .streamEnd

end Lexer

def tokens? (text : String) : Option (List Token) := do
  let gs ← glyphs? text
  return (← Lexer.runFor (gs.length + 1) { rest := gs }).toList

end ScriptInclude.Yaml
