import ScriptInclude.Text.Split

/-!
# Paths

A path is a text; its components are what the text means. Repeated slashes, trailing slashes and `.`
components after the first place mean nothing, so two different texts may be the same path. The text
is kept as it was given, because reports show it. Names that are not valid UTF-8 are left out.
-/

namespace ScriptInclude

structure Path where
  text : String
  deriving DecidableEq, Inhabited

namespace Path

inductive Component where
  | root
  | here
  | up
  | name (s : String)
  deriving DecidableEq

/-! ## Components -/

def chars (p : Path) : List Char := p.text.toList

/-- The parts between slashes. An absolute path begins with an empty part. -/
def parts (p : Path) : List (List Char) := Text.pieces '/' p.chars

def isAbsolute (p : Path) : Bool := p.chars.head? == some '/'

def isEmpty (p : Path) : Bool := p.chars.isEmpty

def laterComponent? (part : List Char) : Option Component :=
  if part = [] ∨ part = ['.'] then none
  else if part = ['.', '.'] then some .up
  else some (.name (String.ofList part))

def firstComponent? (part : List Char) : Option Component :=
  if part = ['.'] then some .here else laterComponent? part

def components (p : Path) : List Component :=
  match p.parts with
  | [] => []
  | first :: rest =>
    if p.isAbsolute then .root :: rest.filterMap laterComponent?
    else (firstComponent? first).toList ++ rest.filterMap laterComponent?

/-- Equal component by component. `..` is not resolved. -/
def Same (p q : Path) : Prop := p.components = q.components

instance (p q : Path) : Decidable (p.Same q) := inferInstanceAs (Decidable (_ = _))

theorem Same.rfl {p : Path} : p.Same p := Eq.refl _

theorem Same.symm {p q : Path} (h : p.Same q) : q.Same p := Eq.symm h

theorem Same.trans {p q r : Path} (h₁ : p.Same q) (h₂ : q.Same r) : p.Same r := Eq.trans h₁ h₂

/-! ## Joining and parents -/

/-- `p` as seen from `base`; an absolute `p` stands for itself. -/
def join (base p : Path) : Path :=
  if p.isAbsolute then p
  else if base.isEmpty || base.chars.getLast? == some '/' then ⟨base.text ++ p.text⟩
  else ⟨base.text ++ "/" ++ p.text⟩

/-- Drops trailing parts that mean nothing. -/
def dropSilent (parts : List (List Char)) : List (List Char) :=
  (parts.reverse.dropWhile fun part => (laterComponent? part).isNone).reverse

/-- `dropSilent` for a relative path, whose first part counts also when it is `.`. -/
def dropSilentAfterFirst : List (List Char) → List (List Char)
  | [] => []
  | first :: rest =>
    match dropSilent rest with
    | [] => if (firstComponent? first).isNone then [] else [first]
    | rest => first :: rest

def ofParts (parts : List (List Char)) : Path := ⟨String.ofList (Text.join ['/'] parts)⟩

/-- The path without its last component, in the words of the path itself. The root and the empty path
have none. -/
def parent? (p : Path) : Option Path :=
  if p.isAbsolute then
    match dropSilent p.parts.tail with
    | [] => none
    | parts => some ⟨"/" ++ (ofParts (dropSilent parts.dropLast)).text⟩
  else
    match dropSilentAfterFirst p.parts with
    | [] => none
    | parts => some (ofParts (dropSilentAfterFirst parts.dropLast))

def ancestors (p : Path) : List Path := go p.components.length p
where
  go : Nat → Path → List Path
    | 0, p => [p]
    | n + 1, p => p :: (p.parent?.map (go n)).getD []

end Path

end ScriptInclude
