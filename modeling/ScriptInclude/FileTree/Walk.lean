import ScriptInclude.FileTree.Basic
import ScriptInclude.FileTree.Error
import ScriptInclude.Path.Basic

/-!
# Walking a path

A walk goes through the parts of a path from a directory, and follows links as it meets them. It ends
at something that is there, or at a free name in a directory that is there. An empty part and `.` stay
where they are, but only a directory can be stayed in.
-/

namespace ScriptInclude

inductive Spot where
  | present (loc : Location) (entry : Entry)
  | vacant (parent : Location) (name : String)
  deriving DecidableEq

namespace FileTree

def maxName : Nat := 255

def maxPath : Nat := 4095

def maxLinks : Nat := 40

def isSilent (part : String) : Bool := part = "" || part = "."

/-- Where the walk of a text begins: an absolute one at the root. -/
def start (p : Path) (here : Location) : Location := if p.isAbsolute then [] else here

def steps (p : Path) : List String := p.parts.map String.ofList

/-- `follow` says whether a link in the last place is followed; `jump` goes on from where a link leads to. -/
def walkBy (t : FileTree) (follow : Bool) (jump : Location → List String → Except FileError Spot)
    (here : Location) : List String → Except FileError Spot
  | [] => .ok (.present here .directory)
  | part :: rest =>
    if isSilent part then walkBy t follow jump here rest
    else if part = ".." then walkBy t follow jump here.dropLast rest
    else if maxName < part.utf8ByteSize then .error .nameTooLong
    else
      let there := here ++ [part]
      match t.lookup? there with
      | none => if rest = [] then .ok (.vacant here part) else .error .notFound
      | some .directory => walkBy t follow jump there rest
      | some (.file b) => if rest = [] then .ok (.present there (.file b)) else .error .notDirectory
      | some (.link target) =>
        if rest = [] ∧ follow = false then .ok (.present there (.link target))
        else jump (start ⟨target⟩ here) (steps ⟨target⟩ ++ rest)

/-- The number is how many links may still be followed. -/
def walk (t : FileTree) (follow : Bool) : Nat → Location → List String → Except FileError Spot
  | 0 => walkBy t follow fun _ _ => .error .tooManyLinks
  | links + 1 => walkBy t follow (walk t follow links)

/-- What every use of a path is tested for first. -/
def usable (p : Path) : Except FileError Unit :=
  if p.isEmpty then .error .notFound
  else if p.chars.contains (Char.ofNat 0) then .error .zeroInName
  else if maxPath < p.text.utf8ByteSize then .error .nameTooLong
  else .ok ()

def locate (t : FileTree) (here : Location) (p : Path) : Except FileError Spot := do
  usable p
  walk t true maxLinks (start p here) (steps p)

/-- The spot that a path names itself, also if a link stands there. Trailing slashes do not count. -/
def locateEntry (t : FileTree) (here : Location) (p : Path) : Except FileError Spot := do
  usable p
  walk t false maxLinks (start p here) ((steps p).reverse.dropWhile (· = "")).reverse

/-! ## Questions -/

def found? (t : FileTree) (here : Location) (p : Path) : Option Entry :=
  match locate t here p with
  | .ok (.present _ n) => some n
  | _ => none

def pathExists (t : FileTree) (here : Location) (p : Path) : Bool := (t.found? here p).isSome

def isFile (t : FileTree) (here : Location) (p : Path) : Bool :=
  match t.found? here p with
  | some (.file _) => true
  | _ => false

def isDirectory (t : FileTree) (here : Location) (p : Path) : Bool := t.found? here p == some .directory

def readBytes (t : FileTree) (here : Location) (p : Path) : Except FileError ByteArray :=
  match locate t here p with
  | .ok (.present _ (.file b)) => .ok b
  | .ok (.present _ _) => .error .isDirectory
  | .ok (.vacant _ _) => .error .notFound
  | .error e => .error e

def readText (t : FileTree) (here : Location) (p : Path) : Except FileError String := do
  match String.fromUTF8? (← t.readBytes here p) with
  | some s => .ok s
  | none => .error .notText

/-- The files directly in the directory at `p`; none if there is no directory. -/
def filesIn (t : FileTree) (here : Location) (p : Path) : List String :=
  match locate t here p with
  | .ok (.present loc .directory) => t.fileNames loc
  | _ => []

end FileTree

end ScriptInclude
