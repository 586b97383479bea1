import ScriptInclude.Proofs.ArgumentErrors
import ScriptInclude.Proofs.Bindings
import ScriptInclude.Proofs.MadeDirectories
import ScriptInclude.Proofs.Parents

/-!
# What a call writes

A call writes nothing but the registered file that it asks for. Directories may be made on the way to that file,
and they stay also where the file cannot be written in the end. Nothing else in the tree is touched.
-/

namespace ScriptInclude

/-! ## Writing an exported file -/

/-- What may have become of a location when the file at `p` was written with the given content. -/
inductive Change (p : Path) (content : ByteArray) (before after : World) (loc : Location) : Prop where
  | none (h : after.tree.lookup? loc = before.tree.lookup? loc)
  /-- The path leads here, where a file stood or nothing. -/
  | file (hold : before.tree.lookup? loc = none ∨ ∃ old, before.tree.lookup? loc = some (.file old))
      (hnew : after.tree.lookup? loc = some (.file content))
      (hled : after.tree.locate before.here p = .ok (.present loc (.file content)))
  /-- A path that `p` begins with leads here, where nothing stood. -/
  | directory (hold : before.tree.lookup? loc = none) (hnew : after.tree.lookup? loc = some .directory) (q : Path)
      (hq : q.components <+: p.components.dropLast)
      (hled : after.tree.locate before.here q = .ok (.present loc .directory))

/-- Nothing has changed but the content of the file at `p` and directories on the way to it. -/
structure WritesOnly (p : Path) (content : ByteArray) (before after : World) : Prop where
  world_eq : after = { before with tree := after.tree }
  change : ∀ loc, Change p content before after loc

namespace ExportFile

variable {e : ExportFile} {w w' : World}

theorem makes_makeParent (e : ExportFile) (w : World) :
    ∃ paths, (∀ q ∈ paths, q.components <+: e.path.components.dropLast) ∧
      FileTree.Makes w.here paths w.tree (e.makeParent w).1.tree := by
  unfold makeParent
  cases hparent : e.path.parent? with
  | none => exact ⟨[], by simp, FileTree.Makes.refl w.here [] w.tree⟩
  | some parent =>
    refine ⟨parent.ancestors, ?_, FileTree.makes_makeDirectories w.tree w.here parent⟩
    intro q hq
    rw [← Path.components_parent? hparent]
    exact Path.components_of_mem_ancestors hq

theorem writesOnly_of_makes {paths : List Path} {tree : FileTree}
    (hpaths : ∀ q ∈ paths, q.components <+: e.path.components.dropLast)
    (h : FileTree.Makes w.here paths w.tree tree) (content : ByteArray) :
    WritesOnly e.path content w { w with tree := tree } := by
  refine ⟨rfl, ?_⟩
  intro loc
  rcases h loc with hsame | ⟨hfree, hnew, q, hq, hled⟩
  · exact .none hsame
  · exact .directory hfree hnew q (hpaths q hq) hled

/-- The file that is written after that stands at a free name or in place of a file. -/
theorem writesOnly_of_writeBytes {paths : List Path} {made written : FileTree} {content : ByteArray}
    (hpaths : ∀ q ∈ paths, q.components <+: e.path.components.dropLast)
    (hmakes : FileTree.Makes w.here paths w.tree made)
    (hwrite : made.writeBytes w.here e.path content = .ok written) :
    WritesOnly e.path content w { w with tree := written } := by
  refine ⟨rfl, ?_⟩
  intro loc
  obtain ⟨spot, place, hspot, hplace, rfl⟩ := FileTree.writeBytes_eq_ok hwrite
  obtain ⟨u, hu, hwalk⟩ := FileTree.bind_eq_ok.mp hspot
  obtain ⟨hroot, hdir, hlink⟩ := FileTree.lookup?_place hwalk hplace
  have hput := FileTree.lookup?_put made place (.file content) loc hroot
  by_cases hloc : loc = place
  · subst hloc
    rw [if_pos rfl] at hput
    refine .file ?_ hput (FileTree.locate_put hspot hplace content)
    rcases hmakes loc with hsame | ⟨hfree, -, -⟩
    · rw [← hsame]
      cases hold : made.lookup? loc with
      | none => exact Or.inl rfl
      | some old =>
        cases old with
        | directory => exact absurd hold hdir
        | link target => exact absurd hold (hlink target)
        | file b => exact Or.inr ⟨b, rfl⟩
    · exact Or.inl hfree
  · rw [if_neg hloc] at hput
    rcases hmakes loc with hsame | ⟨hfree, hnew, q, hq, hled⟩
    · exact .none (hput.trans hsame)
    · exact .directory hfree (hput.trans hnew) q (hpaths q hq)
        (FileTree.locate_of_keeps (FileTree.keeps_put hroot hdir hlink _) hled)

theorem writesOnly_write (e : ExportFile) (w : World) :
    WritesOnly e.path (e.content w.now).toUTF8 w (e.write w).1 := by
  obtain ⟨paths, hpaths, hmakes⟩ := makes_makeParent e w
  unfold write
  cases hparent : e.makeParent w with
  | mk w₁ r =>
    obtain ⟨made, rfl⟩ := makeParent_world hparent
    rw [hparent] at hmakes
    cases r with
    | error err => exact writesOnly_of_makes hpaths hmakes _
    | ok u =>
      dsimp only
      split
      · next written hwrite => exact writesOnly_of_writeBytes hpaths hmakes hwrite
      · exact writesOnly_of_makes hpaths hmakes _

end ExportFile

/-! ## The world after a call -/

namespace Interpreter

variable {i : Interpreter} {p : Path}

theorem exportFile?_eq_none (h : ∀ e ∈ i.exportFiles, ¬ e.path.Same p) : i.exportFile? p = none := by
  apply List.find?_eq_none.mpr
  intro e he
  simpa using h e he

theorem same_of_exportFile? {e : ExportFile} (h : i.exportFile? p = some e) : e.path.Same p := by
  have hsame := List.find?_some h
  exact of_decide_eq_true hsame

theorem exists_exportFile? (h : ∃ e ∈ i.exportFiles, e.path.Same p) :
    ∃ e, i.exportFile? p = some e ∧ e ∈ i.exportFiles ∧ e.path.Same p := by
  cases hfound : i.exportFile? p with
  | none =>
    obtain ⟨e, he, hsame⟩ := h
    exact absurd (decide_eq_true hsame) (List.find?_eq_none.mp hfound e he)
  | some e => exact ⟨e, rfl, List.mem_of_find?_eq_some hfound, same_of_exportFile? hfound⟩

end Interpreter

namespace Session

theorem world_generate (path : Path) (s : Session) :
    (s.generate path).world = ((s.interpreter.exportFile? path).map fun e => (e.write s.world).1).getD s.world := by
  unfold generate
  cases s.interpreter.exportFile? path with
  | none => rfl
  | some e =>
    show _ = (e.write s.world).1
    dsimp only
    cases e.write s.world with
    | mk w r => cases r <;> rfl

/-- Of the effects of the gate only the generation touches the world. -/
theorem world_gate (path : Path) (s : Session) :
    (replay (ExportGate.calls path s) s).world = (s.generate path).world := by
  unfold ExportGate.calls
  cases he : s.interpreter.exportFile? path with
  | none =>
    have hno : Host.isExported s path = false := by
      show (s.interpreter.exportFile? path).isSome = false
      rw [he]
      rfl
    rw [if_neg (by simp [hno]), world_generate, he]
    rfl
  | some e =>
    have hyes : Host.isExported s path = true := by
      show (s.interpreter.exportFile? path).isSome = true
      rw [he]
      rfl
    have hreport : ∀ m : Message, ((s.report m).generate path).world = (s.generate path).world := by
      intro m
      rw [world_generate, world_generate]
      rfl
    rw [if_pos hyes]
    cases Host.policyStatus s .cmp0024 with
    | warn => exact hreport _
    | old | new | requiredIfUsed | requiredAlways => rfl

end Session

namespace Directive

theorem world_run {ctx : Context} {o : Options} (ho : o.target ≠ "") (s : Session) :
    (run ctx o s).2.world = (s.generate (Target.resolve s o.target ctx.sourceDir).path).world := by
  by_cases hr : ExportGate.Refuses (Target.resolve s o.target ctx.sourceDir).path s
  · rw [run_of_refuses ctx ho rfl hr]
    exact Session.world_gate _ s
  · rw [run_of_not_refuses ctx ho rfl hr]
    exact (Session.world_fileCalls o _ _).trans (Session.world_gate _ s)

/-- **A call writes only what is registered.** The world stays as it is unless the target leads to a registered
path. Else the content of the one file that this path leads to may change, and directories may be made where the
path begins; this holds however the call ends, and also where the file cannot be generated. -/
theorem evaluate_writes_only (ctx : Context) (args : List String) (s : Session) :
    let after := (evaluate ctx args s).2.world
    ((∀ o, Options.parse args = .ok o → o.target ≠ "" →
        ∀ e ∈ s.interpreter.exportFiles, ¬ e.path.Same (Target.resolve s o.target ctx.sourceDir).path) →
        after = s.world) ∧
      ∀ o, Options.parse args = .ok o → o.target ≠ "" →
        (∃ e ∈ s.interpreter.exportFiles, e.path.Same (Target.resolve s o.target ctx.sourceDir).path) →
          ∃ e ∈ s.interpreter.exportFiles, e.path.Same (Target.resolve s o.target ctx.sourceDir).path ∧
            WritesOnly e.path (e.content s.world.now).toUTF8 s.world after := by
  intro after
  constructor
  · intro hnone
    cases hparse : Options.parse args with
    | error err =>
      show (evaluate ctx args s).2.world = s.world
      rw [evaluate_of_parse_error hparse]
    | ok o =>
      show (evaluate ctx args s).2.world = s.world
      rw [evaluate_of_parse_ok hparse]
      by_cases ho : o.target = ""
      · rw [run_of_empty ctx ho]
        rfl
      · have hunregistered : s.interpreter.exportFile? (Target.resolve s o.target ctx.sourceDir).path = none :=
          Interpreter.exportFile?_eq_none (hnone o hparse ho)
        rw [world_run ho, Session.world_generate, hunregistered]
        rfl
  · intro o hparse ho hregistered
    obtain ⟨e, he, hmem, hsame⟩ := Interpreter.exists_exportFile? hregistered
    refine ⟨e, hmem, hsame, ?_⟩
    show WritesOnly e.path _ s.world (evaluate ctx args s).2.world
    rw [evaluate_of_parse_ok hparse, world_run ho, Session.world_generate, he]
    exact ExportFile.writesOnly_write e s.world

/-- The call is refused, and the directory and the file have been made where the link leads. -/
theorem evaluate_writes_only_through_link :
    let e : ExportFile := ⟨⟨"/w/out/sub/T.cmake"⟩, ["T"]⟩
    let tree : FileTree :=
      { entries := [(["w"], .directory), (["real"], .directory), (["w", "out"], .link "/real")] }
    let scope := PolicySettings.unset.set .cmp0024 .new
    let s : Session := ⟨{ exportFiles := [e], scopes := [scope] }, { tree := tree }⟩
    let call := evaluate { sourceDir := ⟨"/w"⟩ } ["out/./sub/T.cmake"] s
    call.1 = .error (.exportFilePolicy e.path) ∧
      call.2.world.tree.lookup? ["real", "sub"] = some .directory ∧
      call.2.world.tree.lookup? ["real", "sub", "T.cmake"] = some (.file (e.content "").toUTF8) ∧
      WritesOnly e.path (e.content "").toUTF8 s.world call.2.world := by
  intro e tree scope s call
  obtain ⟨-, honly⟩ := evaluate_writes_only { sourceDir := ⟨"/w"⟩ } ["out/./sub/T.cmake"] s
  have hregistered : e.path.Same (Target.resolve s "out/./sub/T.cmake" ⟨"/w"⟩).path := by decide +kernel
  obtain ⟨e', he', -, hwrites⟩ :=
    honly { target := "out/./sub/T.cmake" } rfl (by decide) ⟨e, List.mem_singleton_self e, hregistered⟩
  obtain rfl := List.mem_singleton.mp he'
  exact ⟨by decide +kernel, by decide +kernel, by decide +kernel, hwrites⟩

end Directive

end ScriptInclude
