import ScriptInclude.Yaml.Token

/-!
# YAML nodes

The node of a document, read from its tokens. An anchor is known by a number: how many anchor names were
known before it. Where a name is used again two anchors may so get one number, and the later node has it.
-/

namespace ScriptInclude.Yaml

/-- What may stand before a node: an anchor and a tag. -/
structure Properties where
  anchor : Option Nat := none
  tag : Option Octets := none

inductive Node where
  | scalar (props : Properties) (text : String) (plain : Bool)
  | sequence (props : Properties) (items : List Node)
  | mapping (props : Properties) (entries : List (Node × Node))
  | reference (number : Nat)
  deriving Inhabited

/-! ## The reader -/

structure NodeReader where
  tokens : List Token
  handles : List (String × Octets) := []
  anchors : List (String × Nat) := []

abbrev Read := StateT NodeReader Option

namespace Read

def peek : Read Token := do
  match (← get).tokens with
  | t :: _ => return t
  | [] => failure

def skip : Read Unit := modify fun r => { r with tokens := r.tokens.tail }

def setAnchor (name : String) : Read Nat := do
  let r ← get
  let number := r.anchors.length
  set { r with anchors := (name, number) :: r.anchors.filter fun a => a.1 ≠ name }
  return number

def reference (name : String) : Read Node := do
  match (← get).anchors.lookup name with
  | some number => return .reference number
  | none => failure

def resolveTag (t : Tag) : Read Octets := do
  if t.handle = "" then return t.suffix
  else match (← get).handles.lookup t.handle with
    | some text => return text ++ t.suffix
    | none => failure

def properties : Read Properties := do
  match ← peek with
  | .anchor name =>
    skip
    let number ← setAnchor name
    match ← peek with
    | .tag t => do skip; return ⟨some number, some (← resolveTag t)⟩
    | _ => return ⟨some number, none⟩
  | .tag t =>
    skip
    match ← peek with
    | .anchor name =>
      skip
      let tag ← resolveTag t
      return ⟨some (← setAnchor name), some tag⟩
    | _ => return ⟨none, some (← resolveTag t)⟩
  | _ => return {}

def empty (props : Properties) : Node := .scalar props "" true

/-- The tag `!` says nothing about a scalar that has a text. -/
def scalarProperties (p : Properties) : Properties :=
  if p.tag = some (octets "!") then { p with tag := none } else p

/-! ## Where a node is left out -/

def endsSequenceItem : Token → Bool
  | .blockEntry | .blockEnd => true
  | _ => false

def endsFlushItem : Token → Bool
  | .blockEntry | .key | .value | .blockEnd => true
  | _ => false

def endsMappingPart : Token → Bool
  | .key | .value | .blockEnd => true
  | _ => false

def endsFlowSequencePart (withValue : Bool) : Token → Bool
  | .flowEntry | .flowSequenceEnd => true
  | .value => withValue
  | _ => false

def endsFlowMappingPart (withValue : Bool) : Token → Bool
  | .flowEntry | .flowMappingEnd => true
  | .value => withValue
  | _ => false

/-! ## Nodes -/

mutual
/-- A node. `block` admits block collections, `flush` a sequence that is not indented. Each call takes
one from the fuel, and passes a token before the same reader is called again. -/
def node : Nat → Bool → Bool → Read Node
  | 0, _, _ => failure
  | fuel + 1, block, flush => do
    match ← peek with
    | .reference name => do skip; reference name
    | _ =>
      let props ← properties
      match ← peek with
      | .blockEntry => if flush then return .sequence props (← flushItems fuel) else content props
      | .scalar text plain => do
        skip
        return .scalar (scalarProperties props) (String.ofList text) plain
      | .flowSequenceStart => do skip; return .sequence props (← flowItems fuel true)
      | .flowMappingStart => do skip; return .mapping props (← flowEntries fuel true)
      | .blockSequenceStart =>
        if block then do skip; return .sequence props (← blockItems fuel) else content props
      | .blockMappingStart =>
        if block then do skip; return .mapping props (← blockEntries fuel) else content props
      | _ => content props
/-- A node that has properties may have no content. -/
def content (props : Properties) : Read Node :=
  if props.anchor.isSome || props.tag.isSome then return empty props else failure
def blockItems : Nat → Read (List Node)
  | 0 => failure
  | fuel + 1 => do
    match ← peek with
    | .blockEntry =>
      skip
      let item ← if endsSequenceItem (← peek) then pure (empty {}) else node fuel true false
      return item :: (← blockItems fuel)
    | .blockEnd => do skip; return []
    | _ => failure
def flushItems : Nat → Read (List Node)
  | 0 => failure
  | fuel + 1 => do
    match ← peek with
    | .blockEntry =>
      skip
      let item ← if endsFlushItem (← peek) then pure (empty {}) else node fuel true false
      return item :: (← flushItems fuel)
    | _ => return []
def blockEntries : Nat → Read (List (Node × Node))
  | 0 => failure
  | fuel + 1 => do
    match ← peek with
    | .key =>
      skip
      let key ← if endsMappingPart (← peek) then pure (empty {}) else node fuel true true
      let value ← match ← peek with
        | .value => do
          skip
          if endsMappingPart (← peek) then pure (empty {}) else node fuel true true
        | _ => pure (empty {})
      return (key, value) :: (← blockEntries fuel)
    | .blockEnd => do skip; return []
    | _ => failure
/-- The items up to the closing bracket; but the first comes after a comma. -/
def flowItems : Nat → Bool → Read (List Node)
  | 0, _ => failure
  | fuel + 1, first => do
    match ← peek with
    | .flowSequenceEnd => do skip; return []
    | t =>
      if !first then
        match t with
        | .flowEntry => skip
        | _ => failure
      match ← peek with
      | .flowSequenceEnd => do skip; return []
      | .key =>
        skip
        let pair ← singlePair fuel
        return .mapping {} [pair] :: (← flowItems fuel false)
      | _ =>
        let item ← node fuel false false
        return item :: (← flowItems fuel false)
/-- A key and a value that stand for a mapping in a flow sequence. A key that is left out takes the next
token with it. -/
def singlePair : Nat → Read (Node × Node)
  | 0 => failure
  | fuel + 1 => do
    let key ← if endsFlowSequencePart true (← peek) then do skip; pure (empty {}) else node fuel false false
    match ← peek with
    | .value =>
      skip
      if endsFlowSequencePart false (← peek) then return (key, empty {})
      else return (key, ← node fuel false false)
    | _ => return (key, empty {})
def flowEntries : Nat → Bool → Read (List (Node × Node))
  | 0, _ => failure
  | fuel + 1, first => do
    match ← peek with
    | .flowMappingEnd => do skip; return []
    | t =>
      if !first then
        match t with
        | .flowEntry => skip
        | _ => failure
      match ← peek with
      | .flowMappingEnd => do skip; return []
      | .key =>
        skip
        let key ← if endsFlowMappingPart true (← peek) then pure (empty {}) else node fuel false false
        let value ← match ← peek with
          | .value => do
            skip
            if endsFlowMappingPart false (← peek) then pure (empty {}) else node fuel false false
          | _ => pure (empty {})
        return (key, value) :: (← flowEntries fuel false)
      | _ =>
        let key ← node fuel false false
        return (key, empty {}) :: (← flowEntries fuel false)
end

/-! ## Documents -/

def declareTag (handle : String) (text : Octets) : Read Unit := do
  let r ← get
  if (r.handles.lookup handle).isSome then failure
  else set { r with handles := (handle, text) :: r.handles }

/-- The two handles that need no directive. -/
def declareDefaults : Read Unit := modify fun r =>
  { r with handles := r.handles ++ [("!", octets "!"), ("!!", octets "tag:yaml.org,2002:")] }

/-- The directives of a document. At most one gives the version, which is 1.1 or 1.2. -/
def directives : Nat → Bool → Read Unit
  | 0, _ => failure
  | fuel + 1, versioned => do
    match ← peek with
    | .directive (.version major minor) =>
      if versioned || major ≠ 1 || (minor ≠ 1 && minor ≠ 2) then failure
      else do skip; directives fuel true
    | .directive (.tag handle text) => do skip; declareTag handle text; directives fuel versioned
    | _ => declareDefaults

def isDocumentBoundary : Token → Bool
  | .directive _ | .documentStart | .documentEnd | .streamEnd => true
  | _ => false

/-- The only node of the text, or none if the text has no document. -/
def document (fuel : Nat) : Read (Option Node) := do
  match ← peek with
  | .streamEnd => return none
  | .directive _ | .documentStart =>
    directives fuel false
    match ← peek with
    | .documentStart =>
      skip
      if isDocumentBoundary (← peek) then return some (empty {}) else return some (← node fuel true false)
    | _ => failure
  | _ => do declareDefaults; return some (← node fuel true false)

/-- Markers may end the document, but no other may follow. -/
def finish : Nat → Read Unit
  | 0 => failure
  | fuel + 1 => do
    match ← peek with
    | .documentEnd => do skip; finish fuel
    | .streamEnd => return ()
    | _ => failure

def whole (fuel : Nat) : Read (Option Node) := do
  let n ← document fuel
  finish fuel
  return n

end Read

/-- Reads a text of at most one document. The outer option tells whether the text is well formed. -/
def Node.read? (text : String) : Option (Option Node) := do
  let tokens ← tokens? text
  return (← (Read.whole (2 * tokens.length + 2)).run { tokens := tokens }).1

end ScriptInclude.Yaml
