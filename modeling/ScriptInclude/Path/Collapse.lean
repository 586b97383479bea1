import ScriptInclude.Path.Basic

/-!
# Collapsing paths

A path is joined onto a base unless it is full, and then loses its `.` and `..` components by the text
alone: `..` takes away the name before it, and stays at the root or at the start of a relative path.
Links are not looked at.
-/

namespace ScriptInclude.Path

def isDrive (c : Char) : Bool := c.isAlpha

def isSeparator (c : Char) : Bool := c = '/' || c = '\\'

/-- A leading separator of either kind, or a drive letter, a colon and a separator. -/
def isFull (p : Path) : Bool :=
  match p.chars with
  | c :: rest => isSeparator c || (isDrive c && match rest with
    | ':' :: d :: _ => isSeparator d
    | _ => false)
  | [] => false

/-- One component on a stack of names, the last name first. -/
def settle (names : List String) : Component → List String
  | .name s => s :: names
  | .up => names.tail
  | .root => names
  | .here => names

def ofNames (rooted : Bool) (names : List String) : Path :=
  ⟨(if rooted then "/" else "") ++ "/".intercalate names⟩

def flatten (p : Path) : Path := ofNames p.isAbsolute (p.components.foldl settle []).reverse

def rebase (p base : Path) : Path := if p.isFull then p else base.join p

def collapse (p base : Path) : Path := (p.rebase base).flatten

end ScriptInclude.Path
