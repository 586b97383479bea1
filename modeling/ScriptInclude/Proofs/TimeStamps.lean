import ScriptInclude.Proofs.Effects
import ScriptInclude.Proofs.Writing

/-!
# Time stamps

The time shows in the header of a generated file and nowhere else. What the header says is not looked at, so two
sessions that go on from one state at different times generate the same files and get the same answers about them.
-/

namespace ScriptInclude

namespace FileTree

variable {exports : List ExportFile} {time time' : String} {t t' : FileTree}

/-- The same tree, but that registered files may have been generated at another time. -/
def Restamped (exports : List ExportFile) (time time' : String) (t t' : FileTree) : Prop :=
  ∀ loc, t'.lookup? loc = t.lookup? loc ∨
    ∃ e ∈ exports, t.lookup? loc = some (.file (e.content time).toUTF8) ∧
      t'.lookup? loc = some (.file (e.content time').toUTF8)

theorem Restamped.refl (exports : List ExportFile) (time time' : String) (t : FileTree) :
    Restamped exports time time' t t := fun _ => Or.inl rfl

theorem restamped_put {e : ExportFile} (he : e ∈ exports) {place : Location} (hroot : place ≠ []) (t : FileTree) :
    Restamped exports time time' (t.put place (.file (e.content time).toUTF8))
      (t.put place (.file (e.content time').toUTF8)) := by
  intro loc
  rw [lookup?_put _ _ _ _ hroot, lookup?_put _ _ _ _ hroot]
  by_cases hloc : loc = place
  · rw [if_pos hloc, if_pos hloc]
    exact Or.inr ⟨e, he, rfl, rfl⟩
  · rw [if_neg hloc, if_neg hloc]
    exact Or.inl rfl

namespace Restamped

theorem lookup?_eq (h : Restamped exports time time' t t') {loc : Location} {e? : Option Entry}
    (hl : t.lookup? loc = e?) (he : ∀ b, e? ≠ some (.file b)) : t'.lookup? loc = e? := by
  rcases h loc with hsame | ⟨e, -, hold, -⟩
  · exact hsame.trans hl
  · exact absurd (hl.symm.trans hold) (he _)

theorem walk (h : Restamped exports time time' t t') (links : Nat) (here : Location) (xs : List String) :
    FileTree.walk t' true links here xs = FileTree.walk t true links here xs ∨
      ∃ loc, ∃ e ∈ exports,
        FileTree.walk t true links here xs = .ok (.present loc (.file (e.content time).toUTF8)) ∧
          FileTree.walk t' true links here xs = .ok (.present loc (.file (e.content time').toUTF8)) := by
  fun_induction enter t links here xs with
  | case1 => exact Or.inl (by rw [walk_nil, walk_nil])
  | case2 links here part rest hp ih =>
    rw [walk_silent hp, walk_silent hp]
    exact ih
  | case3 links here rest hp ih =>
    rw [walk_up, walk_up]
    exact ih
  | case4 links here part rest hp hup hlong =>
    rw [walk_tooLong ⟨hp, hup⟩ hlong, walk_tooLong ⟨hp, hup⟩ hlong]
    exact Or.inl rfl
  | case5 links here part rest hp hup hshort hl =>
    rw [walk_none ⟨hp, hup⟩ hshort hl, walk_none ⟨hp, hup⟩ hshort (h.lookup?_eq hl (by simp))]
    exact Or.inl rfl
  | case6 links here part rest hp hup hshort hl ih =>
    rw [walk_directory ⟨hp, hup⟩ hshort hl, walk_directory ⟨hp, hup⟩ hshort (h.lookup?_eq hl (by simp))]
    exact ih
  | case7 links here part rest hp hup hshort b hl =>
    -- only what a file holds may differ
    rcases h (here ++ [part]) with hsame | ⟨e, he, hold, hnew⟩
    · rw [walk_file ⟨hp, hup⟩ hshort hl, walk_file ⟨hp, hup⟩ hshort (hsame.trans hl)]
      exact Or.inl rfl
    · rw [walk_file ⟨hp, hup⟩ hshort hold, walk_file ⟨hp, hup⟩ hshort hnew]
      by_cases hrest : rest = []
      · rw [if_pos hrest, if_pos hrest]
        exact Or.inr ⟨_, e, he, rfl, rfl⟩
      · rw [if_neg hrest, if_neg hrest]
        exact Or.inl rfl
  | case8 here part rest hp hup hshort target hl =>
    rw [walk_link_zero ⟨hp, hup⟩ hshort hl, walk_link_zero ⟨hp, hup⟩ hshort (h.lookup?_eq hl (by simp))]
    exact Or.inl rfl
  | case9 here part rest hp hup hshort target hl links ih =>
    rw [walk_link_succ ⟨hp, hup⟩ hshort hl, walk_link_succ ⟨hp, hup⟩ hshort (h.lookup?_eq hl (by simp)),
      if_neg (by simp), if_neg (by simp)]
    exact ih

theorem locate (h : Restamped exports time time' t t') (here : Location) (p : Path) :
    FileTree.locate t' here p = FileTree.locate t here p ∨
      ∃ loc, ∃ e ∈ exports,
        FileTree.locate t here p = .ok (.present loc (.file (e.content time).toUTF8)) ∧
          FileTree.locate t' here p = .ok (.present loc (.file (e.content time').toUTF8)) := by
  rw [locate_eq, locate_eq]
  cases usable p with
  | error e => simp only [Except.bind, true_or]
  | ok u =>
    simp only [Except.bind]
    exact h.walk maxLinks (start p here) (steps p)

theorem isOk_readText (h : Restamped exports time time' t t') (here : Location) (p : Path) :
    (t'.readText here p).isOk = (t.readText here p).isOk := by
  unfold FileTree.readText readBytes
  rcases h.locate here p with hsame | ⟨loc, e, -, hold, hnew⟩
  · rw [hsame]
  · -- both are texts, whatever the time is
    simp only [hold, hnew, bind, Except.bind, fromUTF8?_toUTF8]
    rfl

end Restamped

/-- Whether and where a file is written does not depend on what is written. -/
theorem writeBytes_cases (t : FileTree) (here : Location) (p : Path) :
    (∃ err, ∀ content, t.writeBytes here p content = .error err) ∨
      ∃ place, place ≠ [] ∧ ∀ content, t.writeBytes here p content = .ok (t.put place (.file content)) := by
  unfold writeBytes
  split
  · split
    · exact Or.inl ⟨_, fun _ => rfl⟩
    · exact Or.inl ⟨_, fun _ => rfl⟩
  · cases hl : FileTree.locate t here p with
    | error e => exact Or.inl ⟨e, fun _ => rfl⟩
    | ok spot =>
      obtain ⟨u, -, hw⟩ := bind_eq_ok.mp hl
      cases spot with
      | vacant parent name => exact Or.inr ⟨parent ++ [name], by simp, fun _ => rfl⟩
      | present loc old =>
        cases old with
        | directory => exact Or.inl ⟨_, fun _ => rfl⟩
        | link target => exact Or.inl ⟨_, fun _ => rfl⟩
        | file b => exact Or.inr ⟨loc, (lookup?_place hw rfl).1, fun _ => rfl⟩

end FileTree

/-! ## Two times -/

namespace World

/-- Two worlds that differ in nothing but the time, and in the files that were generated in between. -/
structure Restamped (exports : List ExportFile) (w w' : World) : Prop where
  world_eq : w' = { w with tree := w'.tree, now := w'.now }
  tree : FileTree.Restamped exports w.now w'.now w.tree w'.tree

namespace Restamped

variable {exports : List ExportFile} {w w' : World}

theorem isOk_readText (h : Restamped exports w w') (p : Path) : (w'.readText p).isOk = (w.readText p).isOk := by
  have hhere : w'.here = w.here := by rw [h.world_eq]; rfl
  show (w'.tree.readText w'.here p).isOk = _
  rw [hhere]
  exact h.tree.isOk_readText w.here p

end Restamped

def startedAt (time : String) (w : World) : World := { w with now := time }

theorem restamped_startedAt (exports : List ExportFile) (w : World) (time time' : String) :
    Restamped exports (w.startedAt time) (w.startedAt time') :=
  ⟨rfl, FileTree.Restamped.refl exports time time' w.tree⟩

end World

namespace ExportFile

variable {exports : List ExportFile} {e : ExportFile} {w made : World}

theorem makeParent_startedAt (e : ExportFile) (w : World) (time : String) :
    e.makeParent (w.startedAt time) = ((e.makeParent w).1.startedAt time, (e.makeParent w).2) := by
  unfold makeParent
  cases e.path.parent? <;> rfl

theorem write_of_fails (h : e.makeParent w = (made, .ok ())) {err : FileError}
    (hfails : ∀ content, made.tree.writeBytes made.here e.path content = .error err) :
    e.write w = (made, .error (.file e.path err)) := by
  have hwrite : made.tree.writeText made.here e.path (e.content made.now) = .error err := hfails _
  rw [write, h]
  dsimp only
  rw [hwrite]

theorem write_of_writes (h : e.makeParent w = (made, .ok ())) {place : Location}
    (hwrites : ∀ content, made.tree.writeBytes made.here e.path content = .ok (made.tree.put place (.file content))) :
    e.write w = ({ made with tree := made.tree.put place (.file (e.content made.now).toUTF8) }, .ok ()) := by
  have hwrite : made.tree.writeText made.here e.path (e.content made.now) =
      .ok (made.tree.put place (.file (e.content made.now).toUTF8)) := hwrites _
  rw [write, h]
  dsimp only
  rw [hwrite]

/-- A registered file is written at either time, or fails to be in the same way. -/
theorem write_startedAt (he : e ∈ exports) (w : World) (time time' : String) :
    (e.write (w.startedAt time')).2 = (e.write (w.startedAt time)).2 ∧
      World.Restamped exports (e.write (w.startedAt time)).1 (e.write (w.startedAt time')).1 := by
  have hparent := makeParent_startedAt e w
  cases hmade : e.makeParent w with
  | mk made r =>
    rw [hmade] at hparent
    cases r with
    | error err =>
      rw [write, write, hparent time, hparent time']
      exact ⟨rfl, World.restamped_startedAt exports made time time'⟩
    | ok u =>
      rcases FileTree.writeBytes_cases made.tree made.here e.path with ⟨err, hfails⟩ | ⟨place, hroot, hwrites⟩
      · rw [write_of_fails (hparent time) hfails, write_of_fails (hparent time') hfails]
        exact ⟨rfl, World.restamped_startedAt exports made time time'⟩
      · rw [write_of_writes (hparent time) hwrites, write_of_writes (hparent time') hwrites]
        exact ⟨rfl, rfl, FileTree.restamped_put he hroot made.tree⟩

end ExportFile

namespace Session

def startedAt (time : String) (s : Session) : Session := { s with world := s.world.startedAt time }

/-- Two sessions that differ in nothing but the time, and in the files that were generated in between. -/
structure Restamped (s s' : Session) : Prop where
  interpreter : s'.interpreter = s.interpreter
  world : World.Restamped s.interpreter.exportFiles s.world s'.world

theorem restamped_startedAt (s : Session) (time time' : String) :
    Restamped (s.startedAt time) (s.startedAt time') :=
  ⟨rfl, World.restamped_startedAt s.interpreter.exportFiles s.world time time'⟩

theorem Restamped.report {s s' : Session} (h : Restamped s s') (m : Message) :
    Restamped (s.report m) (s'.report m) :=
  ⟨congrArg (Interpreter.report m) h.interpreter, h.world⟩

theorem generate_startedAt (path : Path) (s : Session) (time time' : String) :
    Restamped ((s.startedAt time).generate path) ((s.startedAt time').generate path) := by
  have hfile : ∀ time, (s.startedAt time).interpreter.exportFile? path = s.interpreter.exportFile? path := fun _ => rfl
  unfold generate
  rw [hfile, hfile]
  cases he : s.interpreter.exportFile? path with
  | none => exact restamped_startedAt s time time'
  | some e =>
    have hmem : e ∈ s.interpreter.exportFiles := List.mem_of_find?_eq_some he
    obtain ⟨hresult, hworld⟩ := ExportFile.write_startedAt hmem s.world time time'
    rw [startedAt, startedAt]
    dsimp only
    cases hone : e.write (s.world.startedAt time) with
    | mk one r =>
      cases hother : e.write (s.world.startedAt time') with
      | mk other r' =>
        rw [hone, hother] at hresult hworld
        obtain rfl : r' = r := hresult
        cases r' with
        | ok u => exact ⟨rfl, hworld⟩
        | error err => exact ⟨rfl, hworld⟩

theorem gate_startedAt (path : Path) (s : Session) (time time' : String) :
    Restamped (replay (ExportGate.calls path (s.startedAt time)) (s.startedAt time))
      (replay (ExportGate.calls path (s.startedAt time')) (s.startedAt time')) := by
  have hcalls : ∀ time, ExportGate.calls path (s.startedAt time) = ExportGate.calls path s := fun _ => rfl
  rw [hcalls, hcalls]
  unfold ExportGate.calls
  split
  · cases Host.policyStatus s .cmp0024 with
    | old => exact generate_startedAt path s time time'
    | warn => exact generate_startedAt path (s.report _) time time'
    | new | requiredIfUsed | requiredAlways => exact (generate_startedAt path s time time').report _
  · exact restamped_startedAt s time time'

end Session

end ScriptInclude
