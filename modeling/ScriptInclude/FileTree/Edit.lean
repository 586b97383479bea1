import ScriptInclude.FileTree.Walk

/-!
# Changing a file tree

Making directories, writing files and taking entries away. A change that fails may have made some
directories before, so the tree is part of the answer in any case.
-/

namespace ScriptInclude.FileTree

def makeDirectory (t : FileTree) (here : Location) (p : Path) : Except FileError FileTree := do
  match ← t.locateEntry here p with
  | .vacant parent name => .ok (t.put (parent ++ [name]) .directory)
  | .present _ _ => .error .alreadyExists

/-- Makes the directories from the first path to the last; one that is there already will do. -/
def makeEach (t : FileTree) (here : Location) : List Path → FileTree × Except FileError Unit
  | [] => (t, .ok ())
  | p :: ps =>
    match t.makeDirectory here p with
    | .ok t => makeEach t here ps
    | .error e => if t.isDirectory here p then makeEach t here ps else (t, .error e)

/-- Goes up through `missing :: parents` until a directory is there or can be made, and then down again.
`below` are the directories still to be made, the topmost first. -/
def makeUpward (t : FileTree) (here : Location) (below : List Path) : List Path → FileTree × Except FileError Unit
  | [] => makeEach t here below
  | p :: parents =>
    if p.isEmpty then makeEach t here below
    else match t.makeDirectory here p with
      | .ok t => makeEach t here below
      | .error .notFound => makeUpward t here (p :: below) parents
      | .error e => if t.isDirectory here p then makeEach t here below else (t, .error e)

def makeDirectories (t : FileTree) (here : Location) (p : Path) : FileTree × Except FileError Unit :=
  makeUpward t here [] p.ancestors

/-- Writes a file, new or in place of its old content; links are followed. -/
def writeBytes (t : FileTree) (here : Location) (p : Path) (content : ByteArray) : Except FileError FileTree :=
  if p.chars.getLast? = some '/' then
    match t.locateEntry here p with
    | .ok _ => .error .isDirectory
    | .error e => .error e
  else match t.locate here p with
    | .ok (.present loc (.file _)) => .ok (t.put loc (.file content))
    | .ok (.present _ _) => .error .isDirectory
    | .ok (.vacant parent name) => .ok (t.put (parent ++ [name]) (.file content))
    | .error e => .error e

def writeText (t : FileTree) (here : Location) (p : Path) (content : String) : Except FileError FileTree :=
  t.writeBytes here p content.toUTF8

def makeLink (t : FileTree) (here : Location) (p : Path) (target : String) : Except FileError FileTree := do
  match ← t.locateEntry here p with
  | .vacant parent name => .ok (t.put (parent ++ [name]) (.link target))
  | .present _ _ => .error .alreadyExists

/-- Takes away what a path names, with all below it; a link goes, not what it leads to. -/
def remove (t : FileTree) (here : Location) (p : Path) : FileTree :=
  match t.locateEntry here p with
  | .ok (.present loc _) => if loc = [] then t else t.prune loc
  | _ => t

end ScriptInclude.FileTree
