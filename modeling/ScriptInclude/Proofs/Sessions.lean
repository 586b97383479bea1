import ScriptInclude.Proofs.Bindings
import ScriptInclude.Proofs.PolicySettings

/-!
# Sessions

Between one look at a session and the next the directive is called, the caller does something to the host,
or the world changes by itself. Every effect leaves the policy scopes as they are and only adds to the logs,
so what holds of a new host about scopes, messages and generated files holds after any number of steps.
-/

namespace ScriptInclude

/-! ## What an effect may change -/

namespace Interpreter

/-- What effects may make of an interpreter. The fatal flag follows the messages that are added. -/
structure GrowsTo (before after : Interpreter) : Prop where
  exportFiles : after.exportFiles = before.exportFiles
  scopes : after.scopes = before.scopes
  messages : ∃ added, after.messages = before.messages ++ added ∧
    after.fatal = (before.fatal || added.any Message.isFatal)
  loaded : before.loaded <+: after.loaded
  generated : ∃ added, after.generated = before.generated ++ added ∧
    ∀ path ∈ added, ∃ e ∈ before.exportFiles, e.path = path

namespace GrowsTo

theorem refl (i : Interpreter) : GrowsTo i i where
  exportFiles := rfl
  scopes := rfl
  messages := ⟨[], by simp⟩
  loaded := List.prefix_refl _
  generated := ⟨[], by simp⟩

theorem trans {i j k : Interpreter} (h₁ : GrowsTo i j) (h₂ : GrowsTo j k) : GrowsTo i k where
  exportFiles := h₂.exportFiles.trans h₁.exportFiles
  scopes := h₂.scopes.trans h₁.scopes
  messages := by
    obtain ⟨ms, hms, hf⟩ := h₁.messages
    obtain ⟨ns, hns, hg⟩ := h₂.messages
    refine ⟨ms ++ ns, ?_, ?_⟩
    · rw [hns, hms, List.append_assoc]
    · rw [hg, hf, List.any_append, Bool.or_assoc]
  loaded := h₁.loaded.trans h₂.loaded
  generated := by
    obtain ⟨ps, hps, hp⟩ := h₁.generated
    obtain ⟨qs, hqs, hq⟩ := h₂.generated
    refine ⟨ps ++ qs, by rw [hqs, hps, List.append_assoc], ?_⟩
    intro path hpath
    rcases List.mem_append.mp hpath with h | h
    · exact hp path h
    · rw [← h₁.exportFiles]
      exact hq path h

end GrowsTo

theorem growsTo_report (m : Message) (i : Interpreter) : GrowsTo i (i.report m) := by
  refine ⟨rfl, rfl, ⟨[m], rfl, ?_⟩, List.prefix_refl _, ⟨[], by simp [report]⟩⟩
  simp [report]

theorem growsTo_define (name value : String) (i : Interpreter) : GrowsTo i (i.define name value) :=
  ⟨rfl, rfl, ⟨[], by simp [define]⟩, List.prefix_refl _, ⟨[], by simp [define]⟩⟩

end Interpreter

namespace Session

open Interpreter (GrowsTo growsTo_report growsTo_define)

theorem growsTo_generate (path : Path) (s : Session) :
    GrowsTo s.interpreter (s.generate path).interpreter := by
  unfold generate
  cases he : s.interpreter.exportFile? path with
  | none => exact GrowsTo.refl _
  | some e =>
    have hmem : e ∈ s.interpreter.exportFiles := List.mem_of_find?_eq_some he
    dsimp only
    split
    · refine ⟨rfl, rfl, ⟨[], by simp⟩, List.prefix_refl _, ⟨[e.path], rfl, ?_⟩⟩
      intro p hp
      exact ⟨e, hmem, (List.mem_singleton.mp hp).symm⟩
    · exact growsTo_report _ _

theorem growsTo_loadFile (path : Path) (noPolicyScope : Bool) (s : Session) :
    GrowsTo s.interpreter (s.loadFile path noPolicyScope).2.interpreter := by
  rw [loadFile_eq_readFile]
  unfold readFile
  cases s.world.readText path with
  | error e => exact GrowsTo.refl _
  | ok text => exact ⟨rfl, rfl, ⟨[], by simp⟩, List.prefix_append _ _, ⟨[], by simp⟩⟩

theorem growsTo_perform (c : Call) (s : Session) : GrowsTo s.interpreter (c.perform s).interpreter := by
  cases c with
  | generate path => exact growsTo_generate path s
  | load path noPolicyScope => exact growsTo_loadFile path noPolicyScope s
  | define name value => exact growsTo_define name value s.interpreter
  | report m => exact growsTo_report m s.interpreter

theorem growsTo_replay (calls : List Call) (s : Session) :
    GrowsTo s.interpreter (replay calls s).interpreter := by
  induction calls generalizing s with
  | nil => exact GrowsTo.refl _
  | cons c calls ih => exact (growsTo_perform c s).trans (ih (c.perform s))

theorem growsTo_evaluate (ctx : Context) (args : List String) (s : Session) :
    GrowsTo s.interpreter (Directive.evaluate ctx args s).2.interpreter := by
  unfold Directive.evaluate
  cases Options.parse args with
  | error e => exact GrowsTo.refl _
  | ok o =>
    dsimp only
    rw [Directive.run_snd]
    exact growsTo_replay _ s

end Session

/-! ## The fatal flag -/

def Call.isFatal : Call → Bool
  | .report m => m.isFatal
  | _ => false

namespace Session

end Session

namespace Session

inductive Step where
  | evaluate (ctx : Context) (args : List String)
  | setPolicy (p : Policy) (v : PolicyStatus)
  | report (m : Message)
  | define (name value : String)
  | loadFile (path : Path) (noPolicyScope : Bool)
  | generate (path : Path)
  /-- The world becomes another one while nothing is called. -/
  | change (w : World)

namespace Step

def perform : Step → Session → Session
  | .evaluate ctx args, s => (Directive.evaluate ctx args s).2
  | .setPolicy p v, s => { s with interpreter := s.interpreter.setPolicy p v }
  | .report m, s => s.report m
  | .define name value, s => s.define name value
  | .loadFile path noPolicyScope, s => (s.loadFile path noPolicyScope).2
  | .generate path, s => s.generate path
  | .change w, s => { s with world := w }

/-- The status that a step sets `p` to, if it sets it. -/
def statusFor? (p : Policy) : Step → Option PolicyStatus
  | .setPolicy q v => if q = p then some v else none
  | _ => none

/-- All steps but the setting of a policy are effects, or leave the interpreter alone. -/
theorem setPolicy_or_growsTo (step : Step) (s : Session) :
    (∃ p v, step = .setPolicy p v) ∨
      (∀ p, step.statusFor? p = none) ∧ Interpreter.GrowsTo s.interpreter (step.perform s).interpreter := by
  cases step with
  | setPolicy p v => exact Or.inl ⟨p, v, rfl⟩
  | evaluate ctx args => exact Or.inr ⟨fun _ => rfl, growsTo_evaluate ctx args s⟩
  | report m => exact Or.inr ⟨fun _ => rfl, Interpreter.growsTo_report m s.interpreter⟩
  | define name value => exact Or.inr ⟨fun _ => rfl, Interpreter.growsTo_define name value s.interpreter⟩
  | loadFile path noPolicyScope => exact Or.inr ⟨fun _ => rfl, growsTo_loadFile path noPolicyScope s⟩
  | generate path => exact Or.inr ⟨fun _ => rfl, growsTo_generate path s⟩
  | change w => exact Or.inr ⟨fun _ => rfl, Interpreter.GrowsTo.refl _⟩

end Step

def performAll (steps : List Step) (s : Session) : Session := steps.foldl (fun s step => step.perform s) s

theorem performAll_cons (step : Step) (steps : List Step) (s : Session) :
    performAll (step :: steps) s = performAll steps (step.perform s) := rfl

theorem performAll_append (before after : List Step) (s : Session) :
    performAll (before ++ after) s = performAll after (performAll before s) := List.foldl_append

def statusesFor (p : Policy) (steps : List Step) : List PolicyStatus := steps.filterMap (Step.statusFor? p)

end Session

/-! ## What a step keeps -/

namespace Interpreter

/-- What is true of a host at any time: one scope is open, the fatal flag tells of a fatal message, and only
registered files were generated. -/
structure Sound (exportFiles : List ExportFile) (settings : PolicySettings) (i : Interpreter) : Prop where
  exportFiles_eq : i.exportFiles = exportFiles
  scopes_eq : i.scopes = [settings]
  fatal_eq : i.fatal = i.messages.any Message.isFatal
  generated_mem : ∀ path ∈ i.generated, ∃ e ∈ exportFiles, e.path = path

structure LogsGrow (before after : Interpreter) : Prop where
  messages : before.messages <+: after.messages
  loaded : before.loaded <+: after.loaded
  generated : before.generated <+: after.generated

theorem LogsGrow.refl (i : Interpreter) : LogsGrow i i :=
  ⟨List.prefix_refl _, List.prefix_refl _, List.prefix_refl _⟩

theorem LogsGrow.trans {i j k : Interpreter} (h₁ : LogsGrow i j) (h₂ : LogsGrow j k) : LogsGrow i k :=
  ⟨h₁.messages.trans h₂.messages, h₁.loaded.trans h₂.loaded, h₁.generated.trans h₂.generated⟩

theorem sound_of_growsTo {files : List ExportFile} {settings : PolicySettings} {i j : Interpreter}
    (h : Sound files settings i) (hg : GrowsTo i j) : Sound files settings j := by
  obtain ⟨ms, hms, hfatal⟩ := hg.messages
  obtain ⟨ps, hps, hp⟩ := hg.generated
  refine ⟨hg.exportFiles.trans h.exportFiles_eq, hg.scopes.trans h.scopes_eq, ?_, ?_⟩
  · rw [hfatal, hms, h.fatal_eq, List.any_append]
  · intro path hpath
    rw [hps] at hpath
    rcases List.mem_append.mp hpath with hold | hnew
    · exact h.generated_mem path hold
    · rw [← h.exportFiles_eq]
      exact hp path hnew

theorem sound_setPolicy {files : List ExportFile} {settings : PolicySettings} {i : Interpreter}
    (h : Sound files settings i) (p : Policy) (v : PolicyStatus) :
    Sound files (settings.set p v) (i.setPolicy p v) := by
  have heq : i.setPolicy p v = { i with scopes := [settings.set p v] } := by
    rw [setPolicy, h.scopes_eq]
  rw [heq]
  exact ⟨h.exportFiles_eq, rfl, h.fatal_eq, h.generated_mem⟩

theorem logsGrow_setPolicy (p : Policy) (v : PolicyStatus) (i : Interpreter) : LogsGrow i (i.setPolicy p v) := by
  unfold setPolicy
  split
  · exact LogsGrow.refl _
  · exact ⟨List.prefix_refl _, List.prefix_refl _, List.prefix_refl _⟩

theorem logsGrow_of_growsTo {i j : Interpreter} (h : GrowsTo i j) : LogsGrow i j := by
  obtain ⟨ms, hms, -⟩ := h.messages
  obtain ⟨ps, hps, -⟩ := h.generated
  exact ⟨⟨ms, hms.symm⟩, h.loaded, ⟨ps, hps.symm⟩⟩

end Interpreter

namespace Session

open Interpreter (Sound LogsGrow)

theorem logsGrow_perform (step : Step) (s : Session) : LogsGrow s.interpreter (step.perform s).interpreter := by
  rcases step.setPolicy_or_growsTo s with ⟨p, v, rfl⟩ | ⟨-, hgrows⟩
  · exact Interpreter.logsGrow_setPolicy p v s.interpreter
  · exact Interpreter.logsGrow_of_growsTo hgrows

theorem sound_perform {files : List ExportFile} {settings : PolicySettings} {s : Session}
    (h : Sound files settings s.interpreter) (step : Step) :
    ∃ settings', Sound files settings' (step.perform s).interpreter ∧
      ∀ p, settings'.status p = (step.statusFor? p).getD (settings.status p) := by
  rcases step.setPolicy_or_growsTo s with ⟨q, v, rfl⟩ | ⟨hnone, hgrows⟩
  · refine ⟨settings.set q v, Interpreter.sound_setPolicy h q v, ?_⟩
    intro p
    by_cases hq : q = p
    · subst hq; simp [Step.statusFor?]
    · have hp : p ≠ q := Ne.symm hq
      rw [Step.statusFor?, if_neg hq, PolicySettings.status, PolicySettings.status?_set, if_neg hp]
      rfl
  · refine ⟨settings, Interpreter.sound_of_growsTo h hgrows, ?_⟩
    intro p
    rw [hnone p]
    rfl

/-! ## What a run of steps keeps -/

theorem logsGrow_performAll (steps : List Step) (s : Session) :
    LogsGrow s.interpreter (performAll steps s).interpreter := by
  induction steps generalizing s with
  | nil => exact LogsGrow.refl _
  | cons step steps ih =>
    rw [performAll_cons]
    exact (logsGrow_perform step s).trans (ih (step.perform s))

theorem sound_performAll {files : List ExportFile} {settings : PolicySettings} (steps : List Step) {s : Session}
    (h : Sound files settings s.interpreter) :
    ∃ settings', Sound files settings' (performAll steps s).interpreter ∧
      ∀ p, settings'.status p = (statusesFor p steps).getLast?.getD (settings.status p) := by
  induction steps generalizing s settings with
  | nil => exact ⟨settings, h, fun _ => rfl⟩
  | cons step steps ih =>
    obtain ⟨next, hnext, hstatus⟩ := sound_perform h step
    obtain ⟨last, hlast, hstatus'⟩ := ih hnext
    refine ⟨last, hlast, ?_⟩
    intro p
    rw [hstatus', hstatus, statusesFor, statusesFor, List.filterMap_cons]
    cases step.statusFor? p with
    | none => rfl
    | some v => rw [List.getLast?_cons]; simp

theorem sound_interpreter {c : Config} {i : Interpreter} (h : c.interpreter = .ok i) :
    ∃ settings, c.policySettings = .ok settings ∧ Sound c.exportFiles settings i := by
  obtain ⟨settings, hsettings, rfl⟩ := Config.interpreter_eq_ok.mp h
  exact ⟨settings, hsettings, rfl, rfl, rfl, by simp⟩

/-- **What every session keeps.** However it went on from a new host: one policy scope is open, a policy has the
status it was last set to, the fatal flag is up if and only if there is a fatal message, no log has lost
anything, and all files that were generated are registered. -/
theorem performAll_invariant (c : Config) (i : Interpreter) (h : c.interpreter = .ok i) (w : World)
    (steps : List Step) :
    let after := (performAll steps ⟨i, w⟩).interpreter
    after.scopes.length = 1 ∧
      (∃ settings, c.policySettings = .ok settings ∧
        ∀ p, after.policyStatus p = (statusesFor p steps).getLast?.getD (settings.status p)) ∧
      (after.fatal = true ↔ ∃ m ∈ after.messages, m.level = .fatalError) ∧
      (∀ earlier later, steps = earlier ++ later → LogsGrow (performAll earlier ⟨i, w⟩).interpreter after) ∧
      ∀ path ∈ after.generated, ∃ e ∈ c.exportFiles, e.path = path := by
  intro after
  obtain ⟨settings, hsettings, hsound⟩ := sound_interpreter h
  obtain ⟨last, hlast, hstatus⟩ := sound_performAll steps (s := ⟨i, w⟩) hsound
  refine ⟨?_, ⟨settings, hsettings, ?_⟩, ?_, ?_, hlast.generated_mem⟩
  · rw [hlast.scopes_eq]; rfl
  · intro p
    rw [Interpreter.policyStatus, hlast.scopes_eq]
    exact hstatus p
  · rw [hlast.fatal_eq]
    simp [Message.isFatal, Level.isFatal, after]
  · rintro earlier later rfl
    have hrun := performAll_append earlier later ⟨i, w⟩
    change LogsGrow _ (performAll (earlier ++ later) ⟨i, w⟩).interpreter
    rw [hrun]
    exact logsGrow_performAll later _

/-- A file that may be included becomes one that may not be; both times it is generated. -/
theorem performAll_invariant_refused :
    let c : Config := { exportFiles := [⟨⟨"/b/T.cmake"⟩, ["T"]⟩] }
    let i : Interpreter := { exportFiles := c.exportFiles }
    let call : Step := .evaluate ⟨⟨"/b"⟩, false⟩ ["T.cmake", "OPTIONAL"]
    let steps : List Step := [call, .setPolicy .cmp0024 .new, .change { now := "later" }, call]
    let after := (performAll steps ⟨i, {}⟩).interpreter
    c.interpreter = .ok i ∧ after.scopes.length = 1 ∧ after.policyStatus .cmp0024 = .new ∧
      after.generated = [⟨"/b/T.cmake"⟩, ⟨"/b/T.cmake"⟩] ∧ ∃ m ∈ after.messages, m.level = .fatalError := by
  intro c i call steps after
  have hi : c.interpreter = .ok i := rfl
  obtain ⟨hdepth, ⟨settings, -, hstatus⟩, hfatal, -, -⟩ := performAll_invariant c i hi {} steps
  refine ⟨hi, hdepth, hstatus .cmp0024, by decide +kernel, hfatal.mp (by decide +kernel)⟩

end Session

end ScriptInclude
