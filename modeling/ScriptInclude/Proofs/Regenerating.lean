import ScriptInclude.Proofs.Collapsing
import ScriptInclude.Proofs.EqualPaths
import ScriptInclude.Proofs.Modifiers
import ScriptInclude.Proofs.WrittenFiles

/-!
# Regenerated files

A call looks up the file of an exported path, writes it under the path that it is registered with, and then reads
the path that the target was resolved to. The two need not be the same text. They are equal paths, though, and the
one that is read is flat, so what is read is what was written.
-/

namespace ScriptInclude

theorem ExportGate.not_refuses_of_status {σ : Type} [Host σ] {path : Path} {host : σ}
    (h : Host.policyStatus host .cmp0024 = .old ∨ Host.policyStatus host .cmp0024 = .warn) :
    ¬ Refuses path host := by
  rintro ⟨-, hrefused⟩
  rcases h with h | h <;> simp [h] at hrefused

theorem ExportFile.readText_of_write_of_same {e : ExportFile} {w after : World} {p : Path} (hsame : e.path.Same p)
    (hflat : p.flatten = p) (hwrite : e.write w = (after, .ok ())) : after.readText p = .ok (e.content w.now) := by
  rw [← hflat] at hsame ⊢
  exact World.readText_flatten_of_same hsame (readText_of_write hwrite)

namespace Session

/-! ## The log of generated files -/

theorem generated_generate_report (m : Message) (path : Path) (s : Session) :
    ((s.report m).generate path).interpreter.generated = (s.generate path).interpreter.generated := by
  have hfound : (s.report m).interpreter.exportFile? path = s.interpreter.exportFile? path := rfl
  cases he : s.interpreter.exportFile? path with
  | none => simp only [generate, hfound, he]; rfl
  | some e =>
    cases hwrite : e.write s.world with
    | mk after r =>
      cases r with
      | ok u => rw [generate_of_ok he hwrite, generate_of_ok (s := s.report m) he hwrite]; rfl
      | error err => rw [generate_of_error he hwrite, generate_of_error (s := s.report m) he hwrite]; rfl

theorem generated_gate (path : Path) (s : Session) :
    (replay (ExportGate.calls path s) s).interpreter.generated = (s.generate path).interpreter.generated := by
  unfold ExportGate.calls
  split
  · cases Host.policyStatus s .cmp0024 with
    | warn => exact generated_generate_report _ path s
    | old | new | requiredIfUsed | requiredAlways => rfl
  · next hno =>
    have hnone : s.interpreter.exportFile? path = none := Option.not_isSome_iff_eq_none.mp hno
    rw [generate, hnone]
    rfl

/-- The log grows by the path of the first file that is registered there, once that file is written. -/
theorem exists_write_of_grows {path : Path} {s : Session}
    (h : s.interpreter.generated.length < (s.generate path).interpreter.generated.length) :
    ∃ e after, s.interpreter.exportFile? path = some e ∧ e.write s.world = (after, .ok ()) := by
  cases he : s.interpreter.exportFile? path with
  | none =>
    rw [generate, he] at h
    exact absurd h (Nat.lt_irrefl _)
  | some e =>
    cases hwrite : e.write s.world with
    | mk after r =>
      cases r with
      | ok u => exact ⟨e, after, rfl, hwrite⟩
      | error err =>
        rw [generate_of_error he hwrite] at h
        exact absurd h (Nat.lt_irrefl _)

end Session

namespace Directive

theorem generated_run {ctx : Context} {o : Options} (ho : o.target ≠ "") (s : Session) :
    (run ctx o s).2.interpreter.generated =
      (s.generate (Target.resolve s o.target ctx.sourceDir).path).interpreter.generated := by
  rw [Session.run_snd, prepared, if_neg ho]
  exact Session.generated_gate _ s

theorem target_ne_empty_of_grows {ctx : Context} {o : Options} {s : Session}
    (h : s.interpreter.generated.length < (run ctx o s).2.interpreter.generated.length) : o.target ≠ "" := by
  intro ho
  rw [run_of_empty ctx ho] at h
  exact absurd h (Nat.lt_irrefl _)

/-- **A regenerated file is loaded.** Where the policy lets the call go on and the log of generated files grows, the
call loads the path that it resolved its target to, and what is read there afterwards is what the first file
registered under an equal path now says. Neither the old content nor an `OPTIONAL` makes a difference. -/
theorem run_regenerated (ctx : Context) (o : Options) (s : Session)
    (hstatus : s.interpreter.policyStatus .cmp0024 = .old ∨ s.interpreter.policyStatus .cmp0024 = .warn)
    (hgrows : s.interpreter.generated.length < (run ctx o s).2.interpreter.generated.length) :
    let p := (Target.resolve s o.target ctx.sourceDir).path
    let call := run ctx o s
    call.1 = .ok (.loaded p) ∧
      ∃ e, s.interpreter.exportFile? p = some e ∧
        call.2.interpreter.generated = s.interpreter.generated ++ [e.path] ∧
        call.2.world.readText p = .ok (e.content s.world.now) := by
  intro p call
  have ho : o.target ≠ "" := target_ne_empty_of_grows hgrows
  rw [generated_run ho] at hgrows
  obtain ⟨e, after, he, hwrite⟩ := Session.exists_write_of_grows hgrows
  have hgenerate := Session.generate_of_ok he hwrite
  have hflat : p.flatten = p := Path.flatten_collapse _ _
  have hread : after.readText p = .ok (e.content s.world.now) :=
    ExportFile.readText_of_write_of_same (Interpreter.same_of_exportFile? he) hflat hwrite
  refine ⟨?_, e, he, ?_, ?_⟩
  · -- the file is looked for and read once it is written
    have hprepared : (prepared ctx o.target s).world = after := by
      rw [prepared, if_neg ho, Session.world_gate, hgenerate]
    show (run ctx o s).1 = _
    rw [Session.run_fst, if_neg ho]
    dsimp only
    rw [if_neg (ExportGate.not_refuses_of_status hstatus), hprepared, hread]
    rfl
  · show (run ctx o s).2.interpreter.generated = _
    rw [generated_run ho, hgenerate]
  · show (run ctx o s).2.world.readText p = _
    rw [world_run ho, hgenerate]
    exact hread

/-- An optional file that could not be read before: its bytes are no text, and it is registered twice under paths
that are written otherwise and lead through a link. -/
theorem run_regenerated_over_binary :
    let e : ExportFile := ⟨⟨"/w//out/./T.cmake"⟩, ["T"]⟩
    let later : ExportFile := ⟨⟨"/w/out/T.cmake"⟩, ["U"]⟩
    let tree : FileTree := { entries := [(["w"], .directory), (["w", "out"], .link "/real"), (["real"], .directory),
      (["real", "T.cmake"], .file ⟨#[0xff]⟩)] }
    let s : Session := ⟨{ exportFiles := [e, later] }, { tree := tree, now := "Monday" }⟩
    let o : Options := { target := "sub/../out/T.cmake", optional := true }
    let call := run { sourceDir := ⟨"/w"⟩ } o s
    s.world.readText ⟨"/w/out/T.cmake"⟩ = .error .notText ∧ s.interpreter.policyStatus .cmp0024 = .warn ∧
      s.interpreter.generated.length < call.2.interpreter.generated.length ∧
      call.1 = .ok (.loaded ⟨"/w/out/T.cmake"⟩) ∧ call.2.interpreter.generated = [e.path] ∧
      call.2.world.readText ⟨"/w/out/T.cmake"⟩ = .ok (e.content "Monday") := by
  intro e later tree s o call
  have hstatus : s.interpreter.policyStatus .cmp0024 = .warn := by decide
  have hgrows : s.interpreter.generated.length < call.2.interpreter.generated.length := by decide +kernel
  obtain ⟨hloaded, e', he', hgenerated, hread⟩ := run_regenerated { sourceDir := ⟨"/w"⟩ } o s (Or.inr hstatus) hgrows
  have hpath : (Target.resolve s o.target ⟨"/w"⟩).path = ⟨"/w/out/T.cmake"⟩ := by decide +kernel
  have hfirst : s.interpreter.exportFile? ⟨"/w/out/T.cmake"⟩ = some e := by decide
  dsimp only at hloaded he' hread
  rw [hpath] at hloaded he' hread
  obtain rfl : e = e' := Option.some.inj (hfirst.symm.trans he')
  exact ⟨by decide +kernel, hstatus, hgrows, hloaded, hgenerated, hread⟩

end Directive

end ScriptInclude
