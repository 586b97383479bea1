import ScriptInclude.Proofs.RemadeDirectories
import ScriptInclude.Proofs.TimeStamps

/-!
# Generating a file twice

What a generation leaves behind, also where it failed, is no help and no hindrance to the next one. So two in a row
come to the same end, and leave what the second one would have left by itself.
-/

namespace ScriptInclude

namespace FileTree

variable {t t' : FileTree} {here place : Location} {p : Path} {spot : Spot} {content : ByteArray}

/-! ## Writing a file again -/

theorem not_slash_of_writeBytes (h : t.writeBytes here p content = .ok t') : p.chars.getLast? ≠ some '/' := by
  intro hslash
  unfold writeBytes at h
  rw [if_pos hslash] at h
  split at h <;> cases h

theorem writeBytes_of_place (hp : p.chars.getLast? ≠ some '/') (hl : locate t here p = .ok spot)
    (hs : spot.place? = some place) (content : ByteArray) :
    t.writeBytes here p content = .ok (t.put place (.file content)) := by
  unfold writeBytes
  rw [if_neg hp, hl]
  cases spot with
  | vacant parent name =>
    cases hs
    rfl
  | present loc old =>
    cases old with
    | directory | link target => cases hs
    | file b =>
      cases hs
      rfl

theorem writeBytes_of_writeBytes (h : t.writeBytes here p content = .ok t') (content' : ByteArray) :
    t'.writeBytes here p content' = t.writeBytes here p content' := by
  have hp := not_slash_of_writeBytes h
  obtain ⟨spot, place, hl, hs, rfl⟩ := writeBytes_eq_ok h
  rw [writeBytes_of_place hp hl hs, writeBytes_of_place hp (locate_put hl hs content) rfl, put_put]

theorem keeps_of_writeBytes (h : t.writeBytes here p content = .ok t') : Keeps t t' := by
  obtain ⟨spot, place, hl, hs, rfl⟩ := writeBytes_eq_ok h
  obtain ⟨u, -, hw⟩ := bind_eq_ok.mp hl
  obtain ⟨hroot, hdir, hlink⟩ := lookup?_place hw hs
  exact keeps_put hroot hdir hlink _

end FileTree

namespace ExportFile

variable {e : ExportFile} {w made : World} {err : WriteError}

/-! ## Making the parent again -/

def HasParent (e : ExportFile) (w : World) : Prop := ∀ parent ∈ e.path.parent?, w.tree.Stands w.here parent

theorem makeParent_of_none (h : e.path.parent? = none) (w : World) : e.makeParent w = (w, .ok ()) := by
  rw [makeParent, h]

theorem makeParent_of_some {parent : Path} (h : e.path.parent? = some parent) {t : FileTree}
    {r : Except FileError Unit} (hmake : w.tree.makeDirectories w.here parent = (t, r)) :
    e.makeParent w = ({ w with tree := t }, r.mapError (.directory parent)) := by
  rw [makeParent, h]
  dsimp only
  rw [hmake]

theorem makeParent_of_hasParent (h : e.HasParent w) : e.makeParent w = (w, .ok ()) := by
  cases hparent : e.path.parent? with
  | none => exact makeParent_of_none hparent w
  | some parent => exact makeParent_of_some hparent (FileTree.makeDirectories_of_stands (h parent hparent))

theorem hasParent_of_makeParent (h : e.makeParent w = (made, .ok ())) : e.HasParent made := by
  intro parent hparent
  cases hmake : w.tree.makeDirectories w.here parent with
  | mk t r =>
    rw [makeParent_of_some hparent hmake] at h
    cases r with
    | ok u =>
      cases h
      exact FileTree.stands_of_makeDirectories hmake
    | error cause => cases h

theorem makeParent_of_error (h : e.makeParent w = (made, .error err)) :
    ∃ err', e.makeParent made = (made, .error err') := by
  cases hparent : e.path.parent? with
  | none =>
    rw [makeParent_of_none hparent] at h
    cases h
  | some parent =>
    cases hmake : w.tree.makeDirectories w.here parent with
    | mk t r =>
      rw [makeParent_of_some hparent hmake] at h
      cases r with
      | ok u => cases h
      | error cause =>
        cases h
        obtain ⟨cause', hagain⟩ := FileTree.makeDirectories_of_error hmake
        exact ⟨.directory parent cause', makeParent_of_some (w := { w with tree := t }) hparent hagain⟩

/-! ## Writing the file again -/

theorem write_of_makeParent_error (h : e.makeParent w = (made, .error err)) : e.write w = (made, .error err) := by
  rw [write, h]

/-- The second time the file is written where it was the first time, or fails to be. -/
theorem write_twice (e : ExportFile) (w : World) (time time' : String) :
    ∃ r, e.write ((e.write (w.startedAt time)).1.startedAt time') = ((e.write (w.startedAt time')).1, r) ∧
      r.isOk = (e.write (w.startedAt time)).2.isOk := by
  have hparent := makeParent_startedAt e w
  cases hmade : e.makeParent w with
  | mk made r =>
    rw [hmade] at hparent
    cases r with
    | error err =>
      obtain ⟨err', hagain⟩ := makeParent_of_error (hparent time')
      rw [write_of_makeParent_error (hparent time), write_of_makeParent_error (hparent time')]
      exact ⟨.error err', write_of_makeParent_error hagain, rfl⟩
    | ok u =>
      have hstands : e.HasParent (made.startedAt time') := hasParent_of_makeParent (hparent time')
      rcases FileTree.writeBytes_cases made.tree made.here e.path with ⟨err, hfails⟩ | ⟨place, hroot, hwrites⟩
      · rw [write_of_fails (hparent time) hfails, write_of_fails (hparent time') hfails]
        exact ⟨_, write_of_fails (makeParent_of_hasParent hstands) hfails, rfl⟩
      · rw [write_of_writes (hparent time) hwrites, write_of_writes (hparent time') hwrites]
        have hkeeps := FileTree.keeps_of_writeBytes (hwrites (e.content time).toUTF8)
        have hstill : e.HasParent
            { made with tree := made.tree.put place (.file (e.content time).toUTF8), now := time' } :=
          fun parent hp => (hstands parent hp).of_keeps hkeeps
        have hagain : ∀ content, (made.tree.put place (.file (e.content time).toUTF8)).writeBytes made.here e.path
            content = .ok ((made.tree.put place (.file (e.content time).toUTF8)).put place (.file content)) := by
          intro content
          rw [FileTree.writeBytes_of_writeBytes (hwrites _), hwrites, FileTree.put_put]
        refine ⟨.ok (), ?_, rfl⟩
        have hwrite := write_of_writes (makeParent_of_hasParent hstill) hagain
        rw [FileTree.put_put] at hwrite
        exact hwrite

end ExportFile

namespace Session

variable {s : Session} {p : Path} {e : ExportFile}

theorem generate_startedAt_of_none (h : s.interpreter.exportFile? p = none) (time : String) :
    (s.startedAt time).generate p = s.startedAt time := generate_of_none h

theorem generate_startedAt_of_some (he : s.interpreter.exportFile? p = some e) (time : String) :
    (s.startedAt time).generate p =
      ⟨s.interpreter.note e (e.write (s.world.startedAt time)).2, (e.write (s.world.startedAt time)).1⟩ :=
  generate_of_some (s := s.startedAt time) he

/-- Both times the file is written, or neither time. -/
theorem generate_again (he : s.interpreter.exportFile? p = some e) (time time' : String) :
    let first := (e.write (s.world.startedAt time)).2
    ∃ second, (((s.startedAt time).generate p).startedAt time').generate p =
        ⟨(s.interpreter.note e first).note e second, (e.write (s.world.startedAt time')).1⟩ ∧
      second.isOk = first.isOk := by
  intro first
  obtain ⟨second, hagain, hok⟩ := ExportFile.write_twice e s.world time time'
  refine ⟨second, ?_, hok⟩
  rw [generate_startedAt_of_some he]
  have hfound : (s.interpreter.note e first).exportFile? p = some e := by rw [Interpreter.exportFile?_note, he]
  rw [generate_startedAt_of_some hfound]
  simp only [hagain, first]

/-- **Generating twice is generating once.** Whatever the tree holds, also files or links where directories are
wanted, the second of two generations in a row leaves the world that it would have left by itself, and it differs
from the one that the first left in the time at most. They both succeed and are both logged, or both fail and warn.
-/
theorem generate_twice (s : Session) (p : Path) (time time' : String) :
    let once := (s.startedAt time).generate p
    let twice := (once.startedAt time').generate p
    twice.world = ((s.startedAt time').generate p).world ∧
      World.Restamped s.interpreter.exportFiles once.world twice.world ∧
      match s.interpreter.exportFile? p with
      | none => once = s.startedAt time ∧ twice = s.startedAt time'
      | some e =>
        match (e.write (s.world.startedAt time)).2 with
        | .ok () =>
          once.interpreter = { s.interpreter with generated := s.interpreter.generated ++ [e.path] } ∧
            twice.interpreter = { s.interpreter with generated := s.interpreter.generated ++ [e.path, e.path] }
        | .error first =>
          once.interpreter =
              { s.interpreter with messages := s.interpreter.messages ++ [⟨.warning, first.message⟩] } ∧
            ∃ second : ExportFile.WriteError, twice.interpreter =
              { s.interpreter with
                messages := s.interpreter.messages ++ [⟨.warning, first.message⟩, ⟨.warning, second.message⟩] } := by
  intro once twice
  cases he : s.interpreter.exportFile? p with
  | none =>
    have hidle := generate_startedAt_of_none he
    have honce : once = s.startedAt time := hidle time
    have htwice : twice = s.startedAt time' := by
      show (once.startedAt time').generate p = _
      rw [honce]
      exact hidle time'
    rw [hidle, htwice, honce]
    exact ⟨rfl, World.restamped_startedAt _ s.world time time', rfl, rfl⟩
  | some e =>
    have honce : once = ⟨_, _⟩ := generate_startedAt_of_some he time
    obtain ⟨second, htwice, hok⟩ := generate_again he time time'
    have htwice : twice = ⟨_, _⟩ := htwice
    have hmem : e ∈ s.interpreter.exportFiles := List.mem_of_find?_eq_some he
    rw [generate_startedAt_of_some he time', htwice, honce]
    refine ⟨rfl, (ExportFile.write_startedAt hmem s.world time time').2, ?_⟩
    dsimp only
    cases hfirst : (e.write (s.world.startedAt time)).2 with
    | ok u =>
      rw [hfirst] at hok
      cases second with
      | ok u => simp [Interpreter.note]
      | error err => cases hok
    | error first =>
      rw [hfirst] at hok
      cases second with
      | ok u => cases hok
      | error err =>
        refine ⟨rfl, err, ?_⟩
        simp [Interpreter.note]

/-- A file where a directory is wanted is met on the way down the first time, and on the way up the second time. -/
example :
    let e : ExportFile := { path := ⟨"/new/../f/x/T.cmake"⟩ }
    let s : Session := ⟨{ exportFiles := [e] }, { tree := { entries := [(["f"], .file .empty)] } }⟩
    let once := s.generate e.path
    let twice := once.generate e.path
    once.world.tree.lookup? ["new"] = some .directory ∧ twice.world.tree = once.world.tree ∧
      twice.interpreter.messages.map Message.text =
        [(ExportFile.WriteError.directory ⟨"/new/../f/x"⟩ .alreadyExists).message,
          (ExportFile.WriteError.directory ⟨"/new/../f/x"⟩ .notDirectory).message] := by
  decide +kernel

end Session

end ScriptInclude
