import ScriptInclude.Proofs.ArgumentErrors
import ScriptInclude.Proofs.MemoryOutcome
import ScriptInclude.Proofs.Sessions

/-!
# Fatal errors

A fatal message raises a flag on the host, and nothing that is done to a host takes the flag down. From then on
a file that cannot be found is passed over in silence. The flag that a call is given with its context adds
nothing: a call that fails to load asks the host again.
-/

namespace ScriptInclude

section

variable {σ χ : Type} [Host σ]

/-! ## Messages on record -/

/-- What becomes of the messages of a host. The flag goes up with the fatal ones among those added. -/
def Reports (messages : σ → List Message) (before after : σ) : Prop :=
  ∃ added, messages after = messages before ++ added ∧
    Host.fatalReported after = (Host.fatalReported before || added.any Message.isFatal)

namespace Reports

variable {messages : σ → List Message} {before after last : σ}

theorem refl (messages : σ → List Message) (host : σ) : Reports messages host host :=
  ⟨[], by simp⟩

theorem trans (h₁ : Reports messages before after) (h₂ : Reports messages after last) :
    Reports messages before last := by
  obtain ⟨ms, hms, hf⟩ := h₁
  obtain ⟨ns, hns, hg⟩ := h₂
  refine ⟨ms ++ ns, ?_, ?_⟩
  · rw [hns, hms, List.append_assoc]
  · rw [hg, hf, List.any_append, Bool.or_assoc]

theorem fatal (h : Reports messages before after) (hfatal : Host.fatalReported before = true) :
    Host.fatalReported after = true := by
  obtain ⟨ms, -, hf⟩ := h
  rw [hf, hfatal, Bool.true_or]

theorem fatal_of_added (h : Reports messages before after) {added : List Message}
    (hadded : messages after = messages before ++ added) {m : Message} (hm : m ∈ added)
    (hlevel : m.level = .fatalError) : Host.fatalReported after = true := by
  obtain ⟨ms, hms, hf⟩ := h
  obtain rfl : added = ms := List.append_cancel_left (hadded.symm.trans hms)
  have hany : added.any Message.isFatal = true := by
    apply List.any_eq_true.mpr
    exact ⟨m, hm, by simp [Message.isFatal, Level.isFatal, hlevel]⟩
  rw [hf, hany, Bool.or_true]

end Reports

/-- The messages that a host was told, with every effect accounted for. -/
structure MessageView (σ : Type) [Host σ] where
  messages : σ → List Message
  reports_perform (c : Call) (host : σ) : Reports messages host (c.perform host)

namespace MessageView

variable (v : MessageView σ)

theorem reports_replay (calls : List Call) (host : σ) : Reports v.messages host (replay calls host) := by
  induction calls generalizing host with
  | nil => exact Reports.refl v.messages host
  | cons c calls ih => exact (v.reports_perform c host).trans (ih (c.perform host))

theorem reports_check (path : Path) (host : σ) : Reports v.messages host (ExportGate.check path host).2 := by
  rw [ExportGate.check_eq]
  exact v.reports_replay _ host

theorem reports_run (ctx : Context) (o : Options) (host : σ) :
    Reports v.messages host (Directive.run ctx o host).2 := by
  rw [Directive.run_snd]
  exact v.reports_replay _ host

theorem reports_evaluate (ctx : Context) (args : List String) (host : σ) :
    Reports v.messages host (Directive.evaluate ctx args host).2 := by
  cases hparse : Options.parse args with
  | error e =>
    rw [Directive.evaluate_of_parse_error hparse]
    exact Reports.refl v.messages host
  | ok o =>
    rw [Directive.evaluate_of_parse_ok hparse]
    exact v.reports_run ctx o host

end MessageView

/-! ## Calls -/

namespace Directive

variable (v : MessageView σ)
include v

theorem run_ne_fileNotFound {host : σ} (h : Host.fatalReported host = true) (ctx : Context) (o : Options)
    (specifier : String) : (run ctx o host).1 ≠ .error (.fileNotFound specifier) := by
  by_cases ho : o.target = ""
  · rw [run_of_empty ctx ho]
    intro hne
    cases hne
  · by_cases hr : ExportGate.Refuses (Target.resolve host o.target ctx.sourceDir).path host
    · rw [run_of_refuses ctx ho rfl hr]
      intro hne
      cases hne
    · rw [run_of_not_refuses ctx ho rfl hr]
      dsimp only
      -- the flag is still up when the load has failed
      generalize hpath : (Target.resolve host o.target ctx.sourceDir).path = path
      have hgated : Host.fatalReported (replay (ExportGate.calls path host) host) = true :=
        (v.reports_replay _ host).fatal h
      generalize replay (ExportGate.calls path host) host = gated at hgated
      have hfinal : Host.fatalReported (replay (fileCalls o path gated) gated) = true :=
        (v.reports_replay _ gated).fatal hgated
      unfold ending
      cases loaded? o path gated with
      | some p =>
        intro hne
        cases hne
      | none =>
        dsimp only
        rw [if_pos (Or.inr (Or.inr hfinal))]
        intro hne
        cases hne

theorem run_contextOf (dir : Path) (o : Options) (host : σ) :
    run (contextOf dir host) o host = run { sourceDir := dir } o host := by
  have hpath : (Target.resolve host o.target (contextOf dir host).sourceDir).path =
      (Target.resolve host o.target dir).path := rfl
  by_cases ho : o.target = ""
  · rw [run_of_empty _ ho, run_of_empty _ ho]
  · by_cases hr : ExportGate.Refuses (Target.resolve host o.target dir).path host
    · rw [run_of_refuses _ ho hpath hr, run_of_refuses { sourceDir := dir } ho rfl hr]
    · rw [run_of_not_refuses _ ho hpath hr, run_of_not_refuses { sourceDir := dir } ho rfl hr]
      dsimp only
      generalize (Target.resolve host o.target dir).path = path
      have hkept : Host.fatalReported host = true →
          Host.fatalReported (replay (fileCalls o path (replay (ExportGate.calls path host) host))
            (replay (ExportGate.calls path host) host)) = true := by
        intro h
        exact (v.reports_replay _ _).fatal ((v.reports_replay _ host).fatal h)
      generalize replay (ExportGate.calls path host) host = gated at hkept
      apply Prod.ext
      · unfold ending
        cases loaded? o path gated with
        | some p => rfl
        | none =>
          -- where the context has the flag, the host has it in the end
          have hsame : (contextOf dir host).fatalReported = true ∨
              Host.fatalReported (replay (fileCalls o path gated) gated) = true ↔
              Host.fatalReported (replay (fileCalls o path gated) gated) = true :=
            or_iff_right_of_imp hkept
          simp only [hsame, Bool.false_eq_true, false_or]
      · rfl

theorem evaluate_ne_fileNotFound {host : σ} (h : Host.fatalReported host = true) (ctx : Context)
    (args : List String) (specifier : String) : (evaluate ctx args host).1 ≠ .error (.fileNotFound specifier) := by
  cases hparse : Options.parse args with
  | error e =>
    rw [evaluate_of_parse_error hparse]
    intro hne
    cases hne
    cases Options.isArgumentError_of_parse hparse
  | ok o =>
    rw [evaluate_of_parse_ok hparse]
    exact run_ne_fileNotFound v h ctx o specifier

theorem evaluate_contextOf (dir : Path) (args : List String) (host : σ) :
    evaluate (contextOf dir host) args host = evaluate { sourceDir := dir } args host := by
  cases hparse : Options.parse args with
  | error e => rw [evaluate_of_parse_error hparse, evaluate_of_parse_error hparse]
  | ok o =>
    rw [evaluate_of_parse_ok hparse, evaluate_of_parse_ok hparse]
    exact run_contextOf v dir o host

end Directive

/-! ## Sessions on any host -/

/-- What is done to a host next: a call, the gate or an effect by itself, or an edit of the caller's. -/
inductive HostStep (χ : Type) where
  | evaluate (ctx : Context) (args : List String)
  | run (ctx : Context) (o : Options)
  | check (path : Path)
  | perform (c : Call)
  | edit (x : χ)

def HostStep.apply (edit : χ → σ → σ) : HostStep χ → σ → σ
  | .evaluate ctx args, host => (Directive.evaluate ctx args host).2
  | .run ctx o, host => (Directive.run ctx o host).2
  | .check path, host => (ExportGate.check path host).2
  | .perform c, host => c.perform host
  | .edit x, host => edit x host

def applyAll (edit : χ → σ → σ) (steps : List (HostStep χ)) (host : σ) : σ :=
  steps.foldl (fun host step => step.apply edit host) host

theorem applyAll_append (edit : χ → σ → σ) (before after : List (HostStep χ)) (host : σ) :
    applyAll edit (before ++ after) host = applyAll edit after (applyAll edit before host) := List.foldl_append

namespace MessageView

variable (v : MessageView σ) {edit : χ → σ → σ}

theorem reports_apply (hedit : ∀ x host, Reports v.messages host (edit x host)) (step : HostStep χ) (host : σ) :
    Reports v.messages host (step.apply edit host) := by
  cases step with
  | evaluate ctx args => exact v.reports_evaluate ctx args host
  | run ctx o => exact v.reports_run ctx o host
  | check path => exact v.reports_check path host
  | perform c => exact v.reports_perform c host
  | edit x => exact hedit x host

theorem reports_applyAll (hedit : ∀ x host, Reports v.messages host (edit x host)) (steps : List (HostStep χ))
    (host : σ) : Reports v.messages host (applyAll edit steps host) := by
  induction steps generalizing host with
  | nil => exact Reports.refl v.messages host
  | cons step steps ih => exact (v.reports_apply hedit step host).trans (ih (step.apply edit host))

end MessageView

/-- What the sessions of a host have in common. -/
structure Latches (messages : σ → List Message) (edit : χ → σ → σ) : Prop where
  /-- Messages are only added, and the flag tells of the fatal ones. -/
  reports : ∀ (start : σ) (steps : List (HostStep χ)), Reports messages start (applyAll edit steps start)
  /-- After a fatal message no call, in any context, says that a file was not found. -/
  silent : ∀ (start : σ) (earlier later : List (HostStep χ)),
    (∃ added, messages (applyAll edit earlier start) = messages start ++ added ∧
      ∃ m ∈ added, m.level = .fatalError) →
      let host := applyAll edit (earlier ++ later) start
      (∀ ctx args specifier, (Directive.evaluate ctx args host).1 ≠ .error (.fileNotFound specifier)) ∧
        ∀ ctx o specifier, (Directive.run ctx o host).1 ≠ .error (.fileNotFound specifier)
  /-- It does not matter whether the context has the flag of the host or none. -/
  context : ∀ (start : σ) (steps : List (HostStep χ)) (dir : Path),
    let host := applyAll edit steps start
    (∀ args, Directive.evaluate (Directive.contextOf dir host) args host =
        Directive.evaluate { sourceDir := dir } args host) ∧
      ∀ o, Directive.run (Directive.contextOf dir host) o host = Directive.run { sourceDir := dir } o host

theorem MessageView.latches (v : MessageView σ) {edit : χ → σ → σ}
    (hedit : ∀ x host, Reports v.messages host (edit x host)) : Latches v.messages edit where
  reports start steps := v.reports_applyAll hedit steps start
  silent start earlier later := by
    rintro ⟨added, hadded, m, hm, hlevel⟩
    have hearlier : Host.fatalReported (applyAll edit earlier start) = true :=
      (v.reports_applyAll hedit earlier start).fatal_of_added hadded hm hlevel
    have hlater : Host.fatalReported (applyAll edit (earlier ++ later) start) = true := by
      rw [applyAll_append]
      exact (v.reports_applyAll hedit later _).fatal hearlier
    refine ⟨?_, ?_⟩
    · intro ctx args specifier
      exact Directive.evaluate_ne_fileNotFound v hlater ctx args specifier
    · intro ctx o specifier
      exact Directive.run_ne_fileNotFound v hlater ctx o specifier
  context start steps dir := by
    refine ⟨?_, ?_⟩
    · intro args
      exact Directive.evaluate_contextOf v dir args _
    · intro o
      exact Directive.run_contextOf v dir o _

end

/-! ## The host in memory -/

def Call.message? : Call → Option Message
  | .report m => some m
  | _ => none

namespace Memory

/-- All messages on record, those of loaded files among them. -/
def messages (m : Memory) : List Message := m.calls.filterMap Call.message?

theorem messages_record (c : Call) (m : Memory) : (m.record c).messages = m.messages ++ c.message?.toList := by
  have hlast : [c].filterMap Call.message? = c.message?.toList := by cases c <;> rfl
  show (m.calls ++ [c]).filterMap Call.message? = m.messages ++ c.message?.toList
  rw [List.filterMap_append, hlast]
  rfl

theorem messages_foldl_report (reports : List Message) (m : Memory) :
    (reports.foldl (fun m message => m.report message) m).messages = m.messages ++ reports := by
  induction reports generalizing m with
  | nil => exact (List.append_nil _).symm
  | cons message reports ih =>
    have hreport : (m.report message).messages = m.messages ++ [message] := messages_record (.report message) m
    rw [List.foldl_cons, ih, hreport, List.append_assoc, List.singleton_append]

theorem messages_generate (path : Path) (m : Memory) : (m.generate path).messages = m.messages := by
  have hrecord : (m.record (.generate path)).messages = m.messages :=
    (messages_record (.generate path) m).trans (List.append_nil _)
  unfold generate
  dsimp only
  split
  · exact hrecord
  · exact hrecord

theorem messages_loadFile (path : Path) (noPolicyScope : Bool) (m : Memory) :
    (m.loadFile path noPolicyScope).2.messages =
      m.messages ++ ((m.fileAt? path).map MemoryFile.reports).getD [] := by
  have hrecord : (m.record (.load path noPolicyScope)).messages = m.messages :=
    (messages_record (.load path noPolicyScope) m).trans (List.append_nil _)
  unfold loadFile
  dsimp only
  rw [fileAt?_record]
  cases m.fileAt? path with
  | none => exact hrecord.trans (List.append_nil _).symm
  | some f =>
    dsimp only
    rw [messages_foldl_report, hrecord]
    rfl

def messageView : MessageView Memory where
  messages := messages
  reports_perform c m := by
    cases c with
    | generate path =>
      refine ⟨[], ?_, ?_⟩
      · exact (messages_generate path m).trans (List.append_nil _).symm
      · exact (fatal_generate path m).trans (Bool.or_false _).symm
    | load path noPolicyScope =>
      refine ⟨_, messages_loadFile path noPolicyScope m, (fatal_loadFile path noPolicyScope m).trans ?_⟩
      cases m.fileAt? path with
      | none => rfl
      | some f => rfl
    | define name value => exact ⟨_, messages_record (.define name value) m, (Bool.or_false _).symm⟩
    | report message =>
      refine ⟨_, messages_record (.report message) m, ?_⟩
      simp [Call.message?, Host.fatalReported]

/-- What a caller may do to the tables between two calls. -/
inductive Edit where
  | addFile (f : MemoryFile)
  | removeFile (path : Path)
  | setPolicy (p : Policy) (v : PolicyStatus)

def Edit.apply : Edit → Memory → Memory
  | .addFile f, m => m.addFile f
  | .removeFile path, m => m.removeFile path
  | .setPolicy p v, m => { m with policies := m.policies.set p v }

theorem reports_edit (x : Edit) (m : Memory) : Reports messages m (x.apply m) := by
  refine ⟨[], ?_, ?_⟩
  · cases x with
    | addFile | removeFile | setPolicy => exact (List.append_nil _).symm
  · cases x with
    | addFile | removeFile | setPolicy => exact (Bool.or_false _).symm

end Memory

/-! ## The host over a file tree -/

namespace Session

def messages (s : Session) : List Message := s.interpreter.messages

def messageView : MessageView Session where
  messages := messages
  reports_perform c s := (growsTo_perform c s).messages

/-- What a caller may do to the host between two calls, and what may become of the world. -/
inductive Edit where
  | setPolicy (p : Policy) (v : PolicyStatus)
  | change (w : World)

def Edit.apply : Edit → Session → Session
  | .setPolicy p v, s => { s with interpreter := s.interpreter.setPolicy p v }
  | .change w, s => { s with world := w }

theorem reports_edit (x : Edit) (s : Session) : Reports messages s (x.apply s) := by
  cases x with
  | setPolicy p v =>
    have hkeep : (s.interpreter.setPolicy p v).messages = s.interpreter.messages ∧
        (s.interpreter.setPolicy p v).fatal = s.interpreter.fatal := by
      unfold Interpreter.setPolicy
      split
      · exact ⟨rfl, rfl⟩
      · exact ⟨rfl, rfl⟩
    exact ⟨[], hkeep.1.trans (List.append_nil _).symm, hkeep.2.trans (Bool.or_false _).symm⟩
  | change w => exact Reports.refl messages _

end Session

/-- **Fatal errors stay on record.** Whatever is done to a host after a fatal message, no call says any more that
a file was not found; and at no time does it matter whether a call is told of the flag beforehand. -/
theorem fatal_errors_latch : Latches Memory.messages Memory.Edit.apply ∧ Latches Session.messages Session.Edit.apply :=
  ⟨Memory.messageView.latches Memory.reports_edit, Session.messageView.latches Session.reports_edit⟩

/-- A file that reports a fatal error while it is loaded, and is gone when the next file is missed. -/
theorem fatal_errors_latch_after_loading :
    let broken : MemoryFile := { path := ⟨"/src/a.cmake"⟩, readable := false, reports := [⟨.fatalError, "no"⟩] }
    let start : Memory := { files := [broken] }
    let earlier : List (HostStep Memory.Edit) := [.evaluate { sourceDir := ⟨"/src"⟩ } ["a.cmake", "OPTIONAL"]]
    let later : List (HostStep Memory.Edit) := [.edit (.removeFile ⟨"/src/a.cmake"⟩), .perform (.define "R" "x")]
    let host := applyAll Memory.Edit.apply (earlier ++ later) start
    (Directive.evaluate { sourceDir := ⟨"/src"⟩ } ["b.cmake"] start).1 = .error (.fileNotFound "b.cmake") ∧
      (Directive.evaluate { sourceDir := ⟨"/src"⟩ } ["b.cmake"] host).1 ≠ .error (.fileNotFound "b.cmake") := by
  intro broken start earlier later host
  have hfatal : ∃ added, (applyAll Memory.Edit.apply earlier start).messages = start.messages ++ added ∧
      ∃ m ∈ added, m.level = .fatalError := by
    refine ⟨[⟨.fatalError, "no"⟩], ?_, ⟨.fatalError, "no"⟩, List.mem_singleton_self _, rfl⟩
    decide
  obtain ⟨hsilent, -⟩ := fatal_errors_latch.1.silent start earlier later hfatal
  exact ⟨by decide, hsilent { sourceDir := ⟨"/src"⟩ } ["b.cmake"] "b.cmake"⟩

end ScriptInclude
