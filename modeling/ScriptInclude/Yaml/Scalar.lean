import ScriptInclude.Yaml.Folding

/-!
# YAML scalars

Readers for the three kinds of scalar: quoted, plain and block. Each gives the text of the scalar and
what follows it.
-/

namespace ScriptInclude.Yaml

/-! ## Quoted scalars -/

def hexValue? (c : Char) : Option Nat :=
  if '0' ≤ c ∧ c ≤ '9' then some (c.toNat - 48)
  else if 'a' ≤ c ∧ c ≤ 'f' then some (c.toNat - 87)
  else if 'A' ≤ c ∧ c ≤ 'F' then some (c.toNat - 55)
  else none

inductive Escape where
  | char (c : Char)
  /-- So many hexadecimal digits follow. -/
  | hex (digits : Nat)

def escape? : Char → Option Escape
  | '0' => some (.char (Char.ofNat 0))
  | 'a' => some (.char (Char.ofNat 7))
  | 'b' => some (.char (Char.ofNat 8))
  | 't' => some (.char '\t')
  | '\t' => some (.char '\t')
  | 'n' => some (.char '\n')
  | 'v' => some (.char (Char.ofNat 11))
  | 'f' => some (.char (Char.ofNat 12))
  | 'r' => some (.char '\r')
  | 'e' => some (.char (Char.ofNat 27))
  | ' ' => some (.char ' ')
  | '"' => some (.char '"')
  | '/' => some (.char '/')
  | '\\' => some (.char '\\')
  | 'N' => some (.char nextLine)
  | '_' => some (.char (Char.ofNat 0xA0))
  | 'L' => some (.char lineSeparator)
  | 'P' => some (.char paragraphSeparator)
  | 'x' => some (.hex 2)
  | 'u' => some (.hex 4)
  | 'U' => some (.hex 8)
  | _ => none

/-- The character with a number, if there is one. -/
def charOf? (n : Nat) : Option Char := if n.isValidChar then some (Char.ofNat n) else none

inductive QuoteMode where
  | text
  /-- After the first of two single quotes. -/
  | secondQuote
  | escape
  /-- Inside the digits of an escape. -/
  | hex (left value : Nat)

/-- A quoted scalar after its opening quote. `acc` is the text so far, backwards. -/
def quotedFrom (single : Bool) (mode : QuoteMode) (gap : Gap) (acc : List Char) :
    List Glyph → Option (List Char × List Glyph)
  | [] => none
  | g :: gs =>
    match mode with
    | .secondQuote => quotedFrom single .text .none ('\'' :: acc) gs
    | .escape =>
      if isBreak g.char then quotedFrom single .text (.lines [] []) acc gs
      else match escape? g.char with
        | some (.char c) => quotedFrom single .text .none (c :: acc) gs
        | some (.hex digits) => quotedFrom single (.hex digits 0) .none acc gs
        | none => none
    | .hex left value =>
      match hexValue? g.char with
      | none => none
      | some d =>
        let value := 16 * value + d
        if left = 1 then
          match charOf? value with
          | some c => quotedFrom single .text .none (c :: acc) gs
          | none => none
        else quotedFrom single (.hex (left - 1) value) .none acc gs
    | .text =>
      if isGap g.char then quotedFrom single .text (gap.add g.char) acc gs
      else if atDocumentMarker (g :: gs) then none
      else
        let acc := gap.fold.reverse ++ acc
        if single then
          if g.char = '\'' then
            if startsWith '\'' gs then quotedFrom single .secondQuote .none acc gs else some (acc.reverse, gs)
          else quotedFrom single .text .none (g.char :: acc) gs
        else if g.char = '"' then some (acc.reverse, gs)
        else if g.char = '\\' then quotedFrom single .escape .none acc gs
        else quotedFrom single .text .none (g.char :: acc) gs

def quoted? (single : Bool) (gs : List Glyph) : Option (List Char × List Glyph) :=
  quotedFrom single .text .none [] gs

/-! ## Plain scalars -/

def isFlowIndicator (c : Char) : Bool := c = ',' || c = '[' || c = ']' || c = '{' || c = '}'

structure Plain where
  text : List Char
  /-- A line break was passed after the last character. -/
  passedLine : Bool
  rest : List Glyph

def plainEnds (flow : Bool) (gs : List Glyph) : Bool :=
  match gs with
  | g :: rest => (g.char = ':' && atGap rest) || (flow && isFlowIndicator g.char)
  | [] => true

/-- A colon before an indicator of a flow collection is refused. -/
def plainRefused (flow : Bool) : List Glyph → Bool
  | g :: h :: _ => flow && g.char = ':' && (isFlowIndicator h.char || h.char = '?')
  | _ => false

/-- A plain scalar. `indent` is the least column that a later line may begin at, in block context;
`inGap` holds after a blank or break, and where the scalar begins. -/
def plainFrom (flow : Bool) (indent : Int) (inGap : Bool) (gap : Gap) (acc : List Char) :
    List Glyph → Option Plain
  | [] => some ⟨acc.reverse, gap.hasLines, []⟩
  | g :: gs =>
    let stop : Option Plain := some ⟨acc.reverse, gap.hasLines, g :: gs⟩
    if isGap g.char then
      if gap.hasLines && decide ((g.column : Int) < indent) && g.char = '\t' then none
      else plainFrom flow indent true (gap.add g.char) acc gs
    else if inGap && !flow && !acc.isEmpty && decide ((g.column : Int) < indent) then stop
    else if inGap && (atDocumentMarker (g :: gs) || g.char = '#') then stop
    else if plainRefused flow (g :: gs) then none
    else if plainEnds flow (g :: gs) then stop
    else plainFrom flow indent false .none (g.char :: (gap.fold.reverse ++ acc)) gs

def plain? (flow : Bool) (indent : Int) (gs : List Glyph) : Option Plain :=
  plainFrom flow indent true .none [] gs

/-! ## Block scalars -/

inductive Chomping where
  | strip
  | clip
  | keep
  deriving DecidableEq

structure BlockHeader where
  literal : Bool
  chomping : Chomping
  /-- The indentation given, relative to the parent; zero if it is to be found out. -/
  increment : Nat

def chomping? (c : Char) : Option Chomping :=
  if c = '+' then some .keep else if c = '-' then some .strip else none

/-- The indicators after `|` or `>`, in either order, and the rest of the line. -/
def blockHeader? (literal : Bool) (gs : List Glyph) : Option (BlockHeader × List Glyph) :=
  let increment (gs : List Glyph) : Option (Nat × List Glyph) :=
    match gs with
    | g :: rest => if g.char = '0' then none
        else if g.char.isDigit then some (g.char.toNat - 48, rest) else some (0, gs)
    | [] => some (0, [])
  let chomp (gs : List Glyph) : Chomping × List Glyph :=
    match gs with
    | g :: rest => match chomping? g.char with
      | some c => (c, rest)
      | none => (.clip, gs)
    | [] => (.clip, [])
  let line (h : BlockHeader) (gs : List Glyph) : Option (BlockHeader × List Glyph) :=
    match skipToLineEnd gs with
    | [] => some (h, [])
    | g :: rest => if isBreak g.char then some (h, rest) else none
  match chomp gs with
  | (.clip, gs) => do
    let (n, gs) ← increment gs
    if n = 0 then line ⟨literal, .clip, 0⟩ gs
    else
      let (c, gs) := chomp gs
      line ⟨literal, c, n⟩ gs
  | (c, gs) => do
    let (n, gs) ← increment gs
    line ⟨literal, c, n⟩ gs

structure BlockState where
  /-- The indentation, zero while it is not known. -/
  indent : Nat
  /-- The deepest column met while it is not known. -/
  deepest : Nat := 0
  /-- Inside a line of content. -/
  inLine : Bool := false
  /-- The content line before began with a blank. -/
  afterBlank : Bool := false
  firstBreak : List Char := []
  laterBreaks : List Char := []
  acc : List Char := []

namespace BlockState

/-- Begins a line of content with `c`: breaks before it are folded where both lines begin without a
blank. -/
def beginLine (literal : Bool) (c : Char) (s : BlockState) : BlockState :=
  let folds := !literal && s.firstBreak == ['\n'] && !s.afterBlank && !isSpaceOrTab c
  let first := if folds then (if s.laterBreaks.isEmpty then [' '] else []) else s.firstBreak
  { s with
    inLine := true
    afterBlank := isSpaceOrTab c
    firstBreak := []
    laterBreaks := []
    acc := c :: (s.laterBreaks.reverse ++ (first.reverse ++ s.acc)) }

def text (chomping : Chomping) (s : BlockState) : List Char :=
  s.acc.reverse ++ (if chomping = .strip then [] else s.firstBreak) ++
    (if chomping = .keep then s.laterBreaks else [])

end BlockState

/-- The lines of a block scalar. `parent` is the indentation around it. -/
def blockFrom (h : BlockHeader) (parent : Int) (s : BlockState) : List Glyph → Option (List Char × List Glyph)
  | [] => some (s.text h.chomping, [])
  | g :: gs =>
    if s.inLine then
      if isBreak g.char then
        blockFrom h parent { s with inLine := false, firstBreak := [g.char], laterBreaks := [] } gs
      else blockFrom h parent { s with acc := g.char :: s.acc } gs
    else
      let inMargin := s.indent = 0 || g.column < s.indent
      if inMargin && g.char = ' ' then blockFrom h parent s gs
      else
        let deepest := max s.deepest g.column
        if inMargin && g.char = '\t' then none
        else if isBreak g.char then
          blockFrom h parent { s with deepest := deepest, laterBreaks := s.laterBreaks ++ [g.char] } gs
        else
          let indent := if s.indent = 0 then max deepest (max (parent + 1).toNat 1) else s.indent
          if g.column = indent then
            blockFrom h parent (BlockState.beginLine h.literal g.char { s with indent := indent }) gs
          else some (s.text h.chomping, g :: gs)

def block? (literal : Bool) (parent : Int) (gs : List Glyph) : Option (List Char × List Glyph) := do
  let (h, gs) ← blockHeader? literal gs
  let indent := if h.increment = 0 then 0 else (max parent 0).toNat + h.increment
  blockFrom h parent { indent := indent } gs

end ScriptInclude.Yaml
