import ScriptInclude.Yaml.Node

/-!
# Values from YAML nodes

A text is any scalar, whatever it looks like. A sequence or mapping may be left empty. Aliases are
followed, but not without limit: the whole document may follow a hundred for each of its events.
-/

namespace ScriptInclude.Yaml

/-! ## Anchored nodes -/

mutual
/-- The nodes with anchors, the outer ones first. -/
def Node.anchored : Node → List (Nat × Node)
  | .scalar p s b => (p.anchor.map fun k => (k, Node.scalar p s b)).toList
  | .sequence p items => (p.anchor.map fun k => (k, Node.sequence p items)).toList ++ anchoredItems items
  | .mapping p entries => (p.anchor.map fun k => (k, Node.mapping p entries)).toList ++ anchoredEntries entries
  | .reference _ => []
def anchoredItems : List Node → List (Nat × Node)
  | [] => []
  | n :: ns => n.anchored ++ anchoredItems ns
def anchoredEntries : List (Node × Node) → List (Nat × Node)
  | [] => []
  | (k, v) :: es => k.anchored ++ v.anchored ++ anchoredEntries es
end

mutual
/-- A collection has an event at its start and at its end. -/
def Node.events : Node → Nat
  | .scalar _ _ _ | .reference _ => 1
  | .sequence _ items => 2 + itemEvents items
  | .mapping _ entries => 2 + entryEvents entries
def itemEvents : List Node → Nat
  | [] => 0
  | n :: ns => n.events + itemEvents ns
def entryEvents : List (Node × Node) → Nat
  | [] => 0
  | (k, v) :: es => k.events + v.events + entryEvents es
end

/-! ## Decoding -/

structure Document where
  /-- The nodes with anchors; of two with one number the last counts. -/
  anchored : List (Nat × Node)

/-- Decoding in a document; the state is how many aliases may still be followed. -/
abbrev Decode (α : Type) := ReaderT Document (StateT Nat Option) α

namespace Decode

def aliasesPerEvent : Nat := 100

def decode {α : Type} (n : Node) (d : Node → Decode α) : Option α :=
  (d n ⟨n.anchored⟩ (aliasesPerEvent * n.events)).map Prod.fst

def follow : Node → Decode Node
  | .reference number => do
    match ← get with
    | 0 => failure
    | left + 1 =>
      set left
      match (← read).anchored.reverse.lookup number with
      | some n => return n
      | none => failure
  | n => return n

def isNull (text : String) : Bool := text = "null" || text = "Null" || text = "NULL" || text = "~"

def nullTag : Octets := octets "tag:yaml.org,2002:null"

def isEmpty : Node → Bool
  | .scalar _ text plain => plain && text = ""
  | _ => false

def textOf : Node → Decode String
  | .scalar _ text _ => return text
  | _ => failure

def text (n : Node) : Decode String := do textOf (← follow n)

/-- A text, or nothing for a plain scalar that is empty or says `null`. -/
def text? (n : Node) : Decode (Option String) := do
  let n ← follow n
  match n with
  | .scalar p s true =>
    match p.tag with
    | none => if s = "" || isNull s then return none else return some s
    | some tag =>
      if tag = nullTag then (if isNull s then return none else failure) else return some s
  | n => return some (← textOf n)

def list {α : Type} (item : Node → Decode α) (n : Node) : Decode (List α) := do
  match ← follow n with
  | .sequence _ items => items.mapM item
  | n => if isEmpty n then return [] else failure

/-- The entries of a mapping with their keys as texts. -/
def entries {α : Type} (value : String → Node → Decode α) (n : Node) : Decode (List (String × α)) := do
  match ← follow n with
  | .mapping _ es => es.mapM fun (k, v) => do
    let k ← text k
    return (k, ← value k v)
  | n => if isEmpty n then return [] else failure

/-- The name that a local tag such as `!NEW` gives. -/
def localTag? (p : Properties) : Option String := do
  match ← p.tag with
  | 0x21 :: rest => String.fromUTF8? ⟨rest.toArray⟩
  | _ => none

/-- A name: the text of a scalar, or a local tag on a scalar that says nothing. -/
def name (n : Node) : Decode String := do
  match ← follow n with
  | .scalar p s plain =>
    match localTag? p with
    | some tag => if plain && (s = "" || isNull s) then return tag else failure
    | none => return s
  | _ => failure

end Decode

end ScriptInclude.Yaml
