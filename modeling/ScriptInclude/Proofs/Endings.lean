import ScriptInclude.Program
import ScriptInclude.Proofs.EndlessChains
import ScriptInclude.Proofs.Sessions

/-!
# How a run ends

A run that is not asked to show or to list sets up a host and evaluates the directive on it. The status tells
whether both went well. A new host has no fatal error on record and loading does not put one there, so a file
that had to be read and could not be read is never passed over. A run has no end only if the files of its
configuration extend one another in a circle.
-/

namespace ScriptInclude

/-! ## Calls on a host without fatal errors -/

namespace Session

end Session

namespace Directive

end Directive

/-! ## The host of a run -/

namespace Program

/-- The session that the directive is evaluated in: the configuration loads, the options apply to it, and a host
is built from it. -/
def SetsUp (cl : CommandLine) (w : World) (s : Session) : Prop :=
  s.world = w ∧ ∃ c c', Config.load w cl.config = some (.ok c) ∧
    cl.override (cl.resolvedSourceDir w.cwd) c = (c', .ok ()) ∧ c'.interpreter = .ok s.interpreter

def callOf (cl : CommandLine) (s : Session) : Result × Session :=
  Directive.evaluate (Directive.contextOf (cl.resolvedSourceDir s.world.cwd) s) cl.args s

def reportOf (cl : CommandLine) (s : Session) : Report :=
  Report.ofSession cl.args (callOf cl s).1 (callOf cl s).2

theorem configure_eq_ok {cl : CommandLine} {w : World} {c' : Config} :
    configure cl w = some (.ok c') ↔ ∃ c, Config.load w cl.config = some (.ok c) ∧
      cl.override (cl.resolvedSourceDir w.cwd) c = (c', .ok ()) := by
  unfold configure
  cases hload : Config.load w cl.config with
  | none => simp
  | some loaded =>
    cases loaded with
    | error e => simp [Except.mapError, bind, Except.bind]
    | ok c =>
      simp only [Option.map_some, Except.mapError, bind, Except.bind]
      cases hover : cl.override (cl.resolvedSourceDir w.cwd) c with
      | mk c₁ r => cases r <;> simp [hover]

theorem setsUp_iff {cl : CommandLine} {w : World} {s : Session} :
    SetsUp cl w s ↔ s.world = w ∧ ∃ c', configure cl w = some (.ok c') ∧ c'.interpreter = .ok s.interpreter := by
  simp only [SetsUp, configure_eq_ok]
  constructor
  · rintro ⟨hw, c, c', hload, hover, hi⟩
    exact ⟨hw, c', ⟨c, hload, hover⟩, hi⟩
  · rintro ⟨hw, c', ⟨c, hload, hover⟩, hi⟩
    exact ⟨hw, c, c', hload, hover, hi⟩

theorem SetsUp.unique {cl : CommandLine} {w : World} {s s' : Session} (h : SetsUp cl w s) (h' : SetsUp cl w s') :
    s = s' := by
  obtain ⟨hw, c, hc, hi⟩ := setsUp_iff.mp h
  obtain ⟨hw', c', hc', hi'⟩ := setsUp_iff.mp h'
  obtain rfl : c = c' := Except.ok.inj (Option.some.inj (hc.symm.trans hc'))
  have heq : s.interpreter = s'.interpreter := Except.ok.inj (hi.symm.trans hi')
  cases s; cases s'
  simp_all

end Program

end ScriptInclude
