import ScriptInclude.FileTree.Edit
import ScriptInclude.Path.Collapse

/-!
# The world of a run

The file tree, the current directory, the directories that a user's own configuration is looked up in,
the time, as the text that generated files show, and what decides on colours: whether the output goes to a
terminal, and whether the environment asks for none.
-/

namespace ScriptInclude

structure World where
  tree : FileTree := .empty
  cwd : Path := ⟨"/"⟩
  home : Path := ⟨"/"⟩
  configHome : Option Path := none
  now : String := ""
  terminal : Bool := false
  noColour : Bool := false

namespace World

/-- Whether a report for people is coloured. -/
def colours (w : World) : Bool := w.terminal && !w.noColour

/-- The location of the current directory. -/
def here (w : World) : Location := (w.cwd.components.foldl Path.settle []).reverse

def pathExists (w : World) (p : Path) : Bool := w.tree.pathExists w.here p

def isFile (w : World) (p : Path) : Bool := w.tree.isFile w.here p

def readText (w : World) (p : Path) : Except FileError String := w.tree.readText w.here p

def filesIn (w : World) (p : Path) : List String := w.tree.filesIn w.here p

end World

end ScriptInclude
