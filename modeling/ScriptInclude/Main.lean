import ScriptInclude.Program.Footprint
import Std.Time

/-!
# The command

Takes the part of the file system that a run looks at into a world, runs the program on it, writes back
what has changed, and prints.
-/

namespace ScriptInclude.Command

def locationText (loc : Location) : String := "/" ++ "/".intercalate loc

/-- Puts an entry as it is on disk into the tree; a file with its content if that is asked for. -/
def surveyEntry (withContent : Bool) (cwd : Path) (t : FileTree) (p : Path) : IO FileTree := do
  let full := (← IO.currentDir) / p.text
  match t.locateEntry (World.here { cwd := cwd }) p with
  | .ok (.vacant parent name) =>
    try
      let loc := parent ++ [name]
      match (← full.symlinkMetadata).type with
      | .dir => return t.put loc .directory
      | .symlink => return t.put loc (.link (← IO.FS.realPath full).toString)
      | _ => return t.put loc (.file (← if withContent then IO.FS.readBinFile full else pure .empty))
    catch _ => return t
  | _ => return t

/-- Puts a path, all its parents and what a link leads to into the tree. -/
partial def survey (cwd : Path) (t : FileTree) (p : Path) : IO FileTree := do
  let t ← p.ancestors.reverse.foldlM (surveyEntry true cwd) t
  match t.locateEntry (World.here { cwd := cwd }) p with
  | .ok (.present _ (.link target)) => if target = p.text then return t else survey cwd t ⟨target⟩
  | _ => return t

def surveyListed (cwd : Path) (t : FileTree) (dir : Path) : IO FileTree := do
  let t ← survey cwd t dir
  try
    let found ← ((← IO.currentDir) / dir.text).readDir
    found.toList.foldlM (fun t e => surveyEntry false cwd t (dir.join ⟨e.fileName⟩)) t
  catch _ => return t

/-- Fills in the world until a run looks at nothing new. -/
partial def explore (args : List String) (known : List Path) (w : World) : IO World := do
  let fresh := (Program.footprint args w).filter fun p => !known.contains p
  if fresh.isEmpty then
    return { w with tree := ← (Program.listed args w).foldlM (surveyListed w.cwd) w.tree }
  else
    let tree ← fresh.foldlM (survey w.cwd) w.tree
    explore args (known ++ fresh) { w with tree := tree }

/-- Makes the directories and files that are new or have changed. -/
def writeBack (before after : FileTree) : IO Unit :=
  after.entries.forM fun (loc, e) =>
    if before.lookup? loc = some e then pure ()
    else match e with
      | .directory => IO.FS.createDirAll (locationText loc)
      | .file content => IO.FS.writeBinFile (locationText loc) content
      | .link _ => pure ()

def timeFormat : String := "uuuu-MM-dd'T'HH:mm:ss.SSSSSSSSS"

def now : IO String := do
  let time := Std.Time.DateTime.ofTimestampWithZone (← Std.Time.Timestamp.now) .UTC
  return time.toPlainDateTime.format timeFormat ++ "+00:00"

def world : IO World := do
  let cwd : Path := ⟨(← IO.currentDir).toString⟩
  let w : World :=
    { cwd := cwd
      home := ⟨(← IO.getEnv "HOME").getD "/"⟩
      configHome := (← IO.getEnv "XDG_CONFIG_HOME").map Path.mk
      now := ← now
      terminal := ← (← IO.getStdout).isTty
      noColour := (← IO.getEnv "NO_COLOR").isSome }
  return { w with tree := ← survey cwd w.tree cwd }

/-- Runs the program on the disk; the answer is the status. -/
def runOnDisk (args : List String) : IO UInt32 := do
  let w ← explore args [] (← world)
  -- a run without an end does not come back from here
  let some ending := Program.run args w | throw (IO.userError "the run has no end")
  writeBack w.tree ending.world.tree
  IO.print ending.output
  match ending.complaint with
  | some text => IO.eprintln text
  | none => pure ()
  return ending.status.toUInt32

end ScriptInclude.Command

def main (args : List String) : IO UInt32 := ScriptInclude.Command.runOnDisk args
