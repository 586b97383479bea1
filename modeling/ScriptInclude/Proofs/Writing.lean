import ScriptInclude.Host.Interpreter
import ScriptInclude.Proofs.Walking

/-!
# Reading what was written

A write replaces the content of the file that a path leads to, or makes one where the path leads to a free
name. All that the path passes on its way is a directory or a link, so the same path leads to the new file.
-/

namespace ScriptInclude

/-! ## Where a file can be put -/

/-- The place of a file, or of a name that is free for one. -/
def Spot.place? : Spot → Option Location
  | .present loc (.file _) => some loc
  | .present _ _ => none
  | .vacant parent name => some (parent ++ [name])

namespace FileTree

variable {t : FileTree} {links : Nat} {here place : Location} {xs : List String} {spot : Spot}

/-- What a walk ends at is no directory and no link, if a file can be put there. -/
theorem lookup?_place (h : walk t true links here xs = .ok spot) (hs : spot.place? = some place) :
    place ≠ [] ∧ t.lookup? place ≠ some .directory ∧ ∀ target, t.lookup? place ≠ some (.link target) := by
  fun_induction enter t links here xs with
  | case1 =>
    rw [walk_nil] at h
    cases h
    cases hs
  | case2 links here part rest hp ih =>
    rw [walk_silent hp] at h
    exact ih h
  | case3 links here rest hp ih =>
    rw [walk_up] at h
    exact ih h
  | case4 links here part rest hp hup hlong =>
    rw [walk_tooLong ⟨hp, hup⟩ hlong] at h
    cases h
  | case5 links here part rest hp hup hshort hl =>
    rw [walk_none ⟨hp, hup⟩ hshort hl] at h
    split at h
    · cases h
      cases hs
      simp [hl]
    · cases h
  | case6 links here part rest hp hup hshort hl ih =>
    rw [walk_directory ⟨hp, hup⟩ hshort hl] at h
    exact ih h
  | case7 links here part rest hp hup hshort b hl =>
    rw [walk_file ⟨hp, hup⟩ hshort hl] at h
    split at h
    · cases h
      cases hs
      simp [hl]
    · cases h
  | case8 here part rest hp hup hshort target hl =>
    rw [walk_link_zero ⟨hp, hup⟩ hshort hl] at h
    simp at h
  | case9 here part rest hp hup hshort target hl links ih =>
    rw [walk_link_succ ⟨hp, hup⟩ hshort hl, if_neg (by simp)] at h
    exact ih h

/-- The walk that ended there ends at the file that is put there. -/
theorem walk_put (h : walk t true links here xs = .ok spot) (hs : spot.place? = some place) (b : ByteArray) :
    walk (t.put place (.file b)) true links here xs = .ok (.present place (.file b)) := by
  obtain ⟨hroot, hdir, hlink⟩ := lookup?_place h hs
  have hput : ∀ other, (t.put place (.file b)).lookup? other =
      if other = place then some (.file b) else t.lookup? other := by
    intro other
    exact lookup?_put t place (.file b) other hroot
  fun_induction enter t links here xs with
  | case1 =>
    rw [walk_nil] at h
    cases h
    cases hs
  | case2 links here part rest hp ih =>
    rw [walk_silent hp] at h ⊢
    exact ih h
  | case3 links here rest hp ih =>
    rw [walk_up] at h ⊢
    exact ih h
  | case4 links here part rest hp hup hlong =>
    rw [walk_tooLong ⟨hp, hup⟩ hlong] at h
    cases h
  | case5 links here part rest hp hup hshort hl =>
    rw [walk_none ⟨hp, hup⟩ hshort hl] at h
    split at h
    · next hrest =>
      cases h
      cases hs
      rw [walk_file ⟨hp, hup⟩ hshort ((hput _).trans (if_pos rfl)), if_pos hrest]
    · cases h
  | case6 links here part rest hp hup hshort hl ih =>
    have hne : here ++ [part] ≠ place := by
      rintro rfl
      exact hdir hl
    have hl' := (hput (here ++ [part])).trans ((if_neg hne).trans hl)
    rw [walk_directory ⟨hp, hup⟩ hshort hl] at h
    rw [walk_directory ⟨hp, hup⟩ hshort hl']
    exact ih h
  | case7 links here part rest hp hup hshort old hl =>
    rw [walk_file ⟨hp, hup⟩ hshort hl] at h
    split at h
    · next hrest =>
      cases h
      cases hs
      rw [walk_file ⟨hp, hup⟩ hshort ((hput _).trans (if_pos rfl)), if_pos hrest]
    · cases h
  | case8 here part rest hp hup hshort target hl =>
    rw [walk_link_zero ⟨hp, hup⟩ hshort hl] at h
    simp at h
  | case9 here part rest hp hup hshort target hl links ih =>
    have hne : here ++ [part] ≠ place := by
      rintro rfl
      exact hlink target hl
    have hl' := (hput (here ++ [part])).trans ((if_neg hne).trans hl)
    rw [walk_link_succ ⟨hp, hup⟩ hshort hl, if_neg (by simp)] at h
    rw [walk_link_succ ⟨hp, hup⟩ hshort hl', if_neg (by simp)]
    exact ih h

/-! ## Writing and reading -/

variable {p : Path}

theorem locate_eq (t : FileTree) (here : Location) (p : Path) :
    locate t here p = (usable p).bind fun _ => walk t true maxLinks (start p here) (steps p) := rfl

theorem locate_put (h : locate t here p = .ok spot) (hs : spot.place? = some place) (b : ByteArray) :
    locate (t.put place (.file b)) here p = .ok (.present place (.file b)) := by
  rw [locate_eq, bind_eq_ok] at h
  obtain ⟨u, hu, hw⟩ := h
  rw [locate_eq, hu]
  exact walk_put hw hs b

theorem writeBytes_eq_ok {content : ByteArray} {t' : FileTree} (h : t.writeBytes here p content = .ok t') :
    ∃ spot place, locate t here p = .ok spot ∧ spot.place? = some place ∧ t' = t.put place (.file content) := by
  unfold writeBytes at h
  split at h
  · split at h <;> cases h
  · split at h
    · next loc old hl =>
      cases h
      exact ⟨_, loc, hl, rfl, rfl⟩
    · cases h
    · next parent name hl =>
      cases h
      exact ⟨_, parent ++ [name], hl, rfl, rfl⟩
    · cases h

theorem readBytes_of_writeBytes {content : ByteArray} {t' : FileTree} (h : t.writeBytes here p content = .ok t') :
    t'.readBytes here p = .ok content := by
  obtain ⟨spot, place, hl, hs, rfl⟩ := writeBytes_eq_ok h
  rw [readBytes, locate_put hl hs]

theorem readBytes_eq_ok {b : ByteArray} :
    t.readBytes here p = .ok b ↔ ∃ loc, locate t here p = .ok (.present loc (.file b)) := by
  unfold readBytes
  split <;> simp_all

theorem pathExists_of_readText {text : String} (h : t.readText here p = .ok text) : t.pathExists here p = true := by
  obtain ⟨b, hbytes, -⟩ := bind_eq_ok.mp h
  obtain ⟨loc, hl⟩ := readBytes_eq_ok.mp hbytes
  unfold pathExists found?
  rw [hl]
  rfl

theorem fromUTF8?_toUTF8 (s : String) : String.fromUTF8? s.toUTF8 = some s := by
  have hvalid : s.toUTF8.IsValidUTF8 := s.isValidUTF8
  rw [String.fromUTF8?, dif_pos hvalid]
  rfl

theorem readText_of_writeText {content : String} {t' : FileTree} (h : t.writeText here p content = .ok t') :
    t'.readText here p = .ok content := by
  have hbytes : t'.readBytes here p = .ok content.toUTF8 := readBytes_of_writeBytes h
  unfold readText
  rw [hbytes]
  simp only [bind, Except.bind, fromUTF8?_toUTF8]

end FileTree

/-! ## Generated files -/

namespace ExportFile

theorem makeParent_world {e : ExportFile} {w w' : World} {r : Except WriteError Unit}
    (h : e.makeParent w = (w', r)) : ∃ tree, w' = { w with tree := tree } := by
  unfold makeParent at h
  split at h
  · cases h
    exact ⟨w.tree, rfl⟩
  · cases h
    exact ⟨_, rfl⟩

theorem write_eq_ok {e : ExportFile} {w w' : World} (h : e.write w = (w', .ok ())) :
    ∃ before after, w' = { w with tree := after } ∧
      FileTree.writeText before w.here e.path (e.content w.now) = .ok after := by
  unfold write at h
  split at h
  · cases h
  · next w₁ hparent =>
    obtain ⟨before, rfl⟩ := makeParent_world hparent
    split at h
    · next after hwrite =>
      cases h
      exact ⟨before, after, rfl, hwrite⟩
    · cases h

theorem readText_of_write {e : ExportFile} {w w' : World} (h : e.write w = (w', .ok ())) :
    w'.readText e.path = .ok (e.content w.now) := by
  obtain ⟨before, after, rfl, hwrite⟩ := write_eq_ok h
  exact FileTree.readText_of_writeText hwrite

end ExportFile

namespace Interpreter

/-- What is noted of a write: the path in the log, or a warning. -/
def note (e : ExportFile) (i : Interpreter) : Except ExportFile.WriteError Unit → Interpreter
  | .ok () => { i with generated := i.generated ++ [e.path] }
  | .error err => { i with messages := i.messages ++ [⟨.warning, err.message⟩] }

theorem exportFile?_note (i : Interpreter) (e : ExportFile) (r : Except ExportFile.WriteError Unit) (p : Path) :
    (i.note e r).exportFile? p = i.exportFile? p := by
  cases r <;> rfl

end Interpreter

namespace Session

theorem generate_of_ok {s : Session} {p : Path} {e : ExportFile} {after : World}
    (he : s.interpreter.exportFile? p = some e) (hwrite : e.write s.world = (after, .ok ())) :
    s.generate p = ⟨{ s.interpreter with generated := s.interpreter.generated ++ [e.path] }, after⟩ := by
  rw [generate, he]
  dsimp only
  rw [hwrite]

theorem generate_of_error {s : Session} {p : Path} {e : ExportFile} {after : World} {err : ExportFile.WriteError}
    (he : s.interpreter.exportFile? p = some e) (hwrite : e.write s.world = (after, .error err)) :
    s.generate p = ⟨s.interpreter.report ⟨.warning, err.message⟩, after⟩ := by
  rw [generate, he]
  dsimp only
  rw [hwrite]

theorem generate_of_none {s : Session} {p : Path} (h : s.interpreter.exportFile? p = none) : s.generate p = s := by
  rw [generate, h]

theorem generate_of_some {s : Session} {p : Path} {e : ExportFile}
    (he : s.interpreter.exportFile? p = some e) :
    s.generate p = ⟨s.interpreter.note e (e.write s.world).2, (e.write s.world).1⟩ := by
  cases hwrite : e.write s.world with
  | mk after r =>
    cases r with
    | ok u => exact generate_of_ok he hwrite
    | error err =>
      rw [generate_of_error he hwrite]
      simp [Interpreter.report, Interpreter.note, Message.isFatal, Level.isFatal]

end Session

end ScriptInclude
