import ScriptInclude.Proofs.MemoryOutcome
import ScriptInclude.Proofs.Sessions
import ScriptInclude.Proofs.TimeStamps

/-!
# What the modifiers change

Up to the file itself a call looks at its target only. From there on a result variable adds a binding, a policy
scope leaves a mark in the log, and an optional file is looked for before it is loaded. So two calls with one
target and different modifiers do the same, apart from just that.
-/

namespace ScriptInclude

variable {σ : Type} [Host σ]

namespace Directive

/-! ## Before the file -/

/-- The host after all that a call does before it comes to the file. -/
def prepared (ctx : Context) (target : String) (host : σ) : σ :=
  if target = "" then Host.report emptyTarget host
  else replay (ExportGate.calls (Target.resolve host target ctx.sourceDir).path host) host

def loadedPath? : Result → Option Path
  | .ok (.loaded path) => some path
  | _ => none

theorem loadedPath?_ending (ctx : Context) (o : Options) (loaded : Option Path) (host : σ) :
    loadedPath? (ending ctx o loaded host) = loaded := by
  unfold ending
  cases loaded with
  | some path => rfl
  | none => dsimp only; split <;> rfl

end Directive

/-! ## The file, for a session -/

theorem World.readText_of_missing {w : World} {p : Path} (h : w.pathExists p = false) :
    (w.readText p).isOk = false := by
  cases hread : w.readText p with
  | error e => rfl
  | ok text =>
    rw [pathExists, FileTree.pathExists_of_readText hread] at h
    cases h

namespace Session

open Directive (prepared loadedPath? bindingsOf boundValue?)

theorem loaded?_eq (o : Options) (p : Path) (s : Session) :
    Directive.loaded? o p s = if (s.world.readText p).isOk then some p else none := by
  unfold Directive.loaded?
  rw [loadFile_fst]
  split
  · next h =>
    -- an optional file that is not there could not have been read
    have hmissing : s.world.pathExists p = false := h.2
    rw [if_neg (by simp [World.readText_of_missing hmissing])]
  · rfl

/-- What becomes of a session by the way a call ends. -/
def finish (o : Options) (result : Result) (s : Session) : Session :=
  { s with interpreter := { s.interpreter with
      loaded := s.interpreter.loaded ++ (loadedPath? result).toList.map fun p => ⟨p, o.noPolicyScope⟩
      bindings := (bindingsOf o.resultVariable (boundValue? result)).foldl (fun d e => d.insert e.1 e.2)
        s.interpreter.bindings } }

theorem replay_loadCalls (o : Options) (p : Path) (s : Session) :
    replay (Directive.loadCalls o p s) s = { s with interpreter := { s.interpreter with
      loaded := s.interpreter.loaded ++ (Directive.loaded? o p s).toList.map fun p => ⟨p, o.noPolicyScope⟩ } } := by
  unfold Directive.loadCalls Directive.loaded?
  split
  · simp
  · rw [loadFile_fst]
    show (s.loadFile p o.noPolicyScope).2 = _
    rw [loadFile_eq_readFile]
    unfold readFile
    cases s.world.readText p <;> simp [Except.isOk, Except.toBool]

theorem replay_fileCalls (ctx : Context) (o : Options) (p : Path) (s host : Session) :
    replay (Directive.fileCalls o p s) s = s.finish o (Directive.ending ctx o (Directive.loaded? o p s) host) := by
  rw [Directive.fileCalls, replay_append, replay_loadCalls, finish, Directive.loadedPath?_ending,
    Directive.boundValue?_ending, Directive.bindCalls]
  cases o.resultVariable <;> rfl

theorem run_snd (ctx : Context) (o : Options) (s : Session) :
    (Directive.run ctx o s).2 = (prepared ctx o.target s).finish o (Directive.run ctx o s).1 := by
  -- a call that ends before it comes to the file binds nothing and logs nothing
  have hnothing : ∀ s : Session, ∀ result, loadedPath? result = none → boundValue? result = none →
      s.finish o result = s := by
    intro s result hloaded hbound
    rw [finish, hloaded, hbound]
    cases o.resultVariable <;> simp [bindingsOf]
  unfold prepared
  by_cases ho : o.target = ""
  · rw [Directive.run_of_empty ctx ho, if_pos ho, hnothing _ _ rfl rfl]
    rfl
  · rw [if_neg ho]
    by_cases h : ExportGate.Refuses (Target.resolve s o.target ctx.sourceDir).path s
    · rw [Directive.run_of_refuses ctx ho rfl h, hnothing _ _ rfl rfl]
    · rw [Directive.run_of_not_refuses ctx ho rfl h]
      exact replay_fileCalls ctx o _ _ _

/-- How a call ends by the state before it comes to the file. -/
theorem run_fst (ctx : Context) (o : Options) (s : Session) :
    (Directive.run ctx o s).1 =
      if o.target = "" then .ok .ignored
      else
        let p := (Target.resolve s o.target ctx.sourceDir).path
        let gated := prepared ctx o.target s
        if ExportGate.Refuses p s then .error (.exportFilePolicy p)
        else if (gated.world.readText p).isOk then .ok (.loaded p)
        else if o.optional = true ∨ ctx.fatalReported = true ∨ gated.interpreter.fatal = true then .ok .notLoaded
        else .error (.fileNotFound o.target) := by
  unfold prepared
  by_cases ho : o.target = ""
  · rw [Directive.run_of_empty ctx ho, if_pos ho]
  · rw [if_neg ho, if_neg ho]
    dsimp only
    generalize hpath : (Target.resolve s o.target ctx.sourceDir).path = p
    by_cases h : ExportGate.Refuses p s
    · rw [Directive.run_of_refuses ctx ho hpath h, if_pos h]
    · have hfatal : ∀ s : Session, Host.fatalReported s = s.interpreter.fatal := fun _ => rfl
      rw [Directive.run_of_not_refuses ctx ho hpath h, if_neg h]
      dsimp only
      rw [replay_fileCalls ctx o p _ (replay (ExportGate.calls p s) s)]
      simp only [Directive.ending, loaded?_eq, hfatal, finish]
      by_cases hread : ((replay (ExportGate.calls p s) s).world.readText p).isOk = true
      · rw [if_pos hread, if_pos hread]
      · rw [if_neg hread, if_neg hread]

/-! ## Two sessions -/

theorem prepared_startedAt (ctx : Context) (target : String) (s : Session) (time time' : String) :
    Restamped (prepared ctx target (s.startedAt time)) (prepared ctx target (s.startedAt time')) := by
  unfold prepared
  split
  · exact (restamped_startedAt s time time').report Directive.emptyTarget
  · exact gate_startedAt (Target.resolve s target ctx.sourceDir).path s time time'

theorem exportFiles_prepared (ctx : Context) (target : String) (s : Session) :
    (prepared ctx target s).interpreter.exportFiles = s.interpreter.exportFiles := by
  unfold prepared
  split
  · rfl
  · exact (growsTo_replay _ s).exportFiles

theorem run_startedAt (ctx : Context) (o : Options) (s : Session) (time : String) :
    (Directive.run ctx o (s.startedAt time)).1 = (Directive.run ctx o s).1 ∧
      (Directive.run ctx o (s.startedAt time)).2.interpreter = (Directive.run ctx o s).2.interpreter := by
  obtain ⟨hinterpreter, hworld⟩ : Restamped (prepared ctx o.target s) (prepared ctx o.target (s.startedAt time)) :=
    prepared_startedAt ctx o.target s s.world.now time
  have hresult : (Directive.run ctx o (s.startedAt time)).1 = (Directive.run ctx o s).1 := by
    rw [run_fst, run_fst]
    dsimp only
    rw [hworld.isOk_readText, hinterpreter]
    rfl
  refine ⟨hresult, ?_⟩
  rw [run_snd, run_snd, hresult, finish, finish, hinterpreter]

theorem restamped_run (ctx : Context) (o o' : Options) (htarget : o'.target = o.target) (s : Session)
    (time time' : String) :
    World.Restamped s.interpreter.exportFiles (Directive.run ctx o (s.startedAt time)).2.world
      (Directive.run ctx o' (s.startedAt time')).2.world := by
  have hworld := (prepared_startedAt ctx o.target s time time').world
  rw [exportFiles_prepared] at hworld
  rw [run_snd, run_snd, htarget]
  exact hworld

end Session

namespace Directive

/-! ## An optional file -/

/-- A result where it does not matter that no file was found. -/
def forgiven : Result → Result
  | .error (.fileNotFound _) => .ok .notLoaded
  | result => result

theorem run_optional_fst (ctx : Context) (o : Options) (s : Session) :
    (run ctx { o with optional := true } s).1 = forgiven (run ctx { o with optional := false } s).1 := by
  rw [Session.run_fst, Session.run_fst]
  by_cases ho : o.target = ""
  · simp only [if_pos ho, forgiven]
  · simp only [if_neg ho]
    by_cases h : ExportGate.Refuses (Target.resolve s o.target ctx.sourceDir).path s
    · simp only [if_pos h, forgiven]
    · simp only [if_neg h]
      split
      · rfl
      · simp only [true_or, if_true]
        split <;> rfl

theorem finish_forgiven (o : Options) (optional : Bool) (result : Result) (s : Session) :
    s.finish { o with optional := optional } (forgiven result) = s.finish o result := by
  rcases result with e | outcome
  · cases e <;> rfl
  · cases outcome <;> rfl

/-- **An optional file is only forgiven.** -/
theorem optional_only_forgives (ctx : Context) (o : Options) (s : Session) (time time' : String) :
    let strict := run ctx { o with optional := false } (s.startedAt time)
    let lenient := run ctx { o with optional := true } (s.startedAt time')
    lenient.1 = forgiven strict.1 ∧ lenient.2.interpreter = strict.2.interpreter ∧
      World.Restamped s.interpreter.exportFiles strict.2.world lenient.2.world := by
  dsimp only
  have hresult := run_optional_fst ctx o s
  obtain ⟨hstrict, hinterpreter⟩ := Session.run_startedAt ctx { o with optional := false } s time
  obtain ⟨hlenient, hinterpreter'⟩ := Session.run_startedAt ctx { o with optional := true } s time'
  refine ⟨?_, ?_, ?_⟩
  · rw [hlenient, hstrict, hresult]
  · rw [hinterpreter', hinterpreter, Session.run_snd, Session.run_snd, hresult]
    exact congrArg Session.interpreter (finish_forgiven { o with optional := false } true _ _)
  · exact Session.restamped_run ctx { o with optional := false } { o with optional := true } rfl s time time'

/-- A directory is there, but it is no file. -/
example :
    let s : Session := ⟨{}, { tree := { entries := [(["d"], .directory)] } }⟩
    (run { sourceDir := ⟨"/"⟩ } { target := "d" } s).1 = .error (.fileNotFound "d") ∧
      (run { sourceDir := ⟨"/"⟩ } { target := "d", optional := true } s).1 = .ok .notLoaded := by
  decide +kernel

end Directive

/-! ## The file, in memory -/

namespace Memory

open Directive (prepared)

def reportsAt (m : Memory) (p : Path) : List Message := ((m.fileAt? p).map MemoryFile.reports).getD []

theorem foldl_report (messages : List Message) (m : Memory) :
    messages.foldl (fun m message => m.report message) m =
      { m with calls := m.calls ++ messages.map .report, fatal := m.fatal || messages.any Message.isFatal } := by
  induction messages generalizing m with
  | nil => simp
  | cons message messages ih =>
    rw [List.foldl_cons, ih]
    simp [report, record, Bool.or_assoc]

theorem replay_loadCalls (o : Options) (p : Path) (m : Memory) :
    replay (Directive.loadCalls o p m) m =
      { m with
        calls := m.calls ++ (Directive.loadCalls o p m ++ (m.reportsAt p).map .report)
        fatal := m.fatal || (m.reportsAt p).any Message.isFatal } := by
  unfold Directive.loadCalls reportsAt
  split
  · next h =>
    have hnone : m.fileAt? p = none := by simpa [Host.fileExists] using h.2
    simp [hnone]
  · show (m.loadFile p o.noPolicyScope).2 = _
    unfold loadFile
    dsimp only
    rw [fileAt?_record]
    cases m.fileAt? p with
    | none => simp [record]
    | some f => simp [record, foldl_report]

theorem replay_bindCalls (o : Options) (loaded : Option Path) (m : Memory) :
    replay (Directive.bindCalls o loaded) m =
      { m with
        calls := m.calls ++ Directive.bindCalls o loaded
        bindings := (replay (Directive.bindCalls o loaded) m).bindings } := by
  unfold Directive.bindCalls
  cases o.resultVariable with
  | none => simp
  | some name => rfl

theorem calls_perform (c : Call) (m : Memory) : ∃ added, (c.perform m).calls = m.calls ++ added := by
  cases c with
  | generate path =>
    rw [perform_generate, generate]
    split <;> exact ⟨_, rfl⟩
  | load path noPolicyScope =>
    rw [perform_load, loadFile]
    split
    · exact ⟨_, rfl⟩
    · rw [foldl_report]
      exact ⟨_, List.append_assoc _ _ _⟩
  | define name value => exact ⟨_, rfl⟩
  | report message => exact ⟨_, rfl⟩

theorem calls_replay (calls : List Call) (m : Memory) : ∃ added, (replay calls m).calls = m.calls ++ added := by
  induction calls generalizing m with
  | nil => exact ⟨[], (List.append_nil m.calls).symm⟩
  | cons c calls ih =>
    obtain ⟨first, hfirst⟩ := calls_perform c m
    obtain ⟨rest, hrest⟩ := ih (c.perform m)
    exact ⟨first ++ rest, by rw [replay_cons, hrest, hfirst, List.append_assoc]⟩

end Memory

/-! ## A variable and a policy scope -/

/-- A call without the mark of a load; a definition does not count. -/
def Call.core? : Call → Option Call
  | .define _ _ => none
  | .load path _ => some (.load path false)
  | c => some c

/-- The same calls in the same order, apart from definitions and from the marks of loads. -/
def SameCore (calls calls' : List Call) : Prop := calls.filterMap Call.core? = calls'.filterMap Call.core?

/-- What two calls on one memory may differ in: variables, definitions and the marks of loads. -/
structure Memory.Twins (before one other : Memory) : Prop where
  state : other = { one with bindings := other.bindings, calls := other.calls }
  calls : ∃ added added', one.calls = before.calls ++ added ∧ other.calls = before.calls ++ added' ∧
    SameCore added added'

/-- What two calls of one session may differ in: variables, the marks of loads, and time stamps. -/
structure Session.Twins (noPolicyScope noPolicyScope' : Bool) (before one other : Session) : Prop where
  interpreter : other.interpreter =
    { one.interpreter with bindings := other.interpreter.bindings, loaded := other.interpreter.loaded }
  loaded : ∃ paths : List Path,
    one.interpreter.loaded = before.interpreter.loaded ++ paths.map (fun p => ⟨p, noPolicyScope⟩) ∧
      other.interpreter.loaded = before.interpreter.loaded ++ paths.map fun p => ⟨p, noPolicyScope'⟩
  world : World.Restamped before.interpreter.exportFiles one.world other.world

theorem SameCore.append {xs xs' ys ys' : List Call} (h : SameCore xs xs') (h' : SameCore ys ys') :
    SameCore (xs ++ ys) (xs' ++ ys') := by
  rw [SameCore, List.filterMap_append, List.filterMap_append, h, h']

namespace Directive

theorem sameCore_bindCalls (o o' : Options) (loaded loaded' : Option Path) :
    SameCore (bindCalls o loaded) (bindCalls o' loaded') := by
  have hnone : ∀ (o : Options) (loaded : Option Path), (bindCalls o loaded).filterMap Call.core? = [] := by
    intro o loaded
    unfold bindCalls
    cases o.resultVariable <;> rfl
  exact (hnone o loaded).trans (hnone o' loaded').symm

theorem sameCore_loadCalls (o o' : Options) (h : o'.optional = o.optional) (p : Path) (host : σ) :
    SameCore (loadCalls o p host) (loadCalls o' p host) := by
  unfold loadCalls
  rw [h]
  split <;> rfl

theorem get?_run_of_ne (v : VariableView σ) (ctx : Context) (o : Options) (host : σ) {name : String}
    (h : o.resultVariable ≠ some name) :
    (v.bindings (run ctx o host).2).get? name = (v.bindings host).get? name := by
  rw [run_snd, v.bindings_replay, definitions_calls]
  cases hrequested : o.resultVariable with
  | none => rfl
  | some requested =>
    have hne : name ≠ requested := fun heq => h (heq ▸ hrequested)
    cases boundValue? (run ctx o host).1 <;> simp [bindingsOf, hne]

theorem twins_fileCalls (o : Options) (noPolicyScope : Bool) (name? : Option String) (p : Path) {m before : Memory}
    (hm : ∃ added, m.calls = before.calls ++ added) :
    let o' : Options := { o with noPolicyScope := noPolicyScope, resultVariable := name? }
    Memory.Twins before (replay (fileCalls o p m) m) (replay (fileCalls o' p m) m) := by
  obtain ⟨gate, hgate⟩ := hm
  -- of what is done from here on, only the mark and the definition are not the same
  have hfinal : ∀ o : Options, replay (fileCalls o p m) m = { m with
      calls := before.calls ++ (gate ++ (loadCalls o p m ++ (m.reportsAt p).map .report ++ bindCalls o (loaded? o p m)))
      fatal := m.fatal || (m.reportsAt p).any Message.isFatal
      bindings := (replay (fileCalls o p m) m).bindings } := by
    intro o
    rw [fileCalls, replay_append, Memory.replay_loadCalls, Memory.replay_bindCalls, hgate]
    simp only [List.append_assoc]
  intro o'
  rw [hfinal o, hfinal o']
  have hload : SameCore (loadCalls o p m) (loadCalls o' p m) := sameCore_loadCalls o o' rfl p m
  have hbind := sameCore_bindCalls o o' (loaded? o p m) (loaded? o' p m)
  refine ⟨rfl, _, _, rfl, rfl, ?_⟩
  have hsame : SameCore gate gate := rfl
  exact hsame.append ((hload.append rfl).append hbind)

theorem twins_memory (ctx : Context) (o : Options) (noPolicyScope : Bool) (name? : Option String) (m : Memory) :
    let o' : Options := { o with noPolicyScope := noPolicyScope, resultVariable := name? }
    (run ctx o' m).1 = (run ctx o m).1 ∧ Memory.Twins m (run ctx o m).2 (run ctx o' m).2 := by
  intro o'
  have hself : ∀ one : Memory, (∃ added, one.calls = m.calls ++ added) → Memory.Twins m one one := by
    rintro one ⟨added, hadded⟩
    exact ⟨rfl, added, added, hadded, hadded, rfl⟩
  by_cases ho : o.target = ""
  · rw [run_of_empty ctx ho, run_of_empty (o := o') ctx ho]
    exact ⟨rfl, hself _ (Memory.calls_replay _ m)⟩
  · by_cases h : ExportGate.Refuses (Target.resolve m o.target ctx.sourceDir).path m
    · rw [run_of_refuses ctx ho rfl h, run_of_refuses (o := o') ctx ho rfl h]
      exact ⟨rfl, hself _ (Memory.calls_replay _ m)⟩
    · have hfatal : ∀ m : Memory, Host.fatalReported m = m.fatal := fun _ => rfl
      rw [run_of_not_refuses ctx ho rfl h, run_of_not_refuses (o := o') ctx ho rfl h]
      refine ⟨?_, twins_fileCalls o noPolicyScope name? _ (Memory.calls_replay _ m)⟩
      simp only [ending, Memory.loaded?_eq, hfatal, Memory.fatal_fileCalls]
      rfl

theorem twins_session (ctx : Context) (o : Options) (noPolicyScope : Bool) (name? : Option String) (s : Session)
    (time time' : String) :
    let o' : Options := { o with noPolicyScope := noPolicyScope, resultVariable := name? }
    (run ctx o' (s.startedAt time')).1 = (run ctx o (s.startedAt time)).1 ∧
      Session.Twins o.noPolicyScope noPolicyScope s (run ctx o (s.startedAt time)).2
        (run ctx o' (s.startedAt time')).2 := by
  intro o'
  obtain ⟨hone, hinterpreter⟩ := Session.run_startedAt ctx o s time
  obtain ⟨hother, hinterpreter'⟩ := Session.run_startedAt ctx o' s time'
  have hresult : (run ctx o' s).1 = (run ctx o s).1 := (Session.run_fst ctx o' s).trans (Session.run_fst ctx o s).symm
  have hloaded : (prepared ctx o.target s).interpreter.loaded = s.interpreter.loaded := by
    unfold prepared
    split
    · rfl
    · exact Session.loaded_gate _ s
  refine ⟨by rw [hone, hother, hresult], ?_, ?_, Session.restamped_run ctx o o' rfl s time time'⟩
  · rw [hinterpreter, hinterpreter', Session.run_snd, Session.run_snd]
    rfl
  · refine ⟨(loadedPath? (run ctx o s).1).toList, ?_, ?_⟩
    · rw [hinterpreter, Session.run_snd, Session.finish, hloaded]
    · rw [hinterpreter', Session.run_snd, Session.finish, hresult]
      show (prepared ctx o.target s).interpreter.loaded ++ _ = _
      rw [hloaded]

/-- **A result variable and a policy scope influence nothing else.** -/
theorem run_with_other_modifiers (ctx : Context) (o : Options) (noPolicyScope : Bool) (name? : Option String) :
    let o' : Options := { o with noPolicyScope := noPolicyScope, resultVariable := name? }
    (∀ m : Memory,
      let one := run ctx o m
      let other := run ctx o' m
      other.1 = one.1 ∧ Memory.Twins m one.2 other.2 ∧
        ∀ name, o.resultVariable ≠ some name → name? ≠ some name →
          other.2.bindings.get? name = one.2.bindings.get? name) ∧
      ∀ (s : Session) (time time' : String),
        let one := run ctx o (s.startedAt time)
        let other := run ctx o' (s.startedAt time')
        other.1 = one.1 ∧ Session.Twins o.noPolicyScope noPolicyScope s one.2 other.2 ∧
          ∀ name, o.resultVariable ≠ some name → name? ≠ some name →
            other.2.interpreter.bindings.get? name = one.2.interpreter.bindings.get? name := by
  intro o'
  constructor
  · intro m
    obtain ⟨hresult, htwins⟩ := twins_memory ctx o noPolicyScope name? m
    refine ⟨hresult, htwins, ?_⟩
    intro name hone hother
    exact (get?_run_of_ne Memory.variableView ctx o' m hother).trans
      (get?_run_of_ne Memory.variableView ctx o m hone).symm
  · intro s time time'
    obtain ⟨hresult, htwins⟩ := twins_session ctx o noPolicyScope name? s time time'
    refine ⟨hresult, htwins, ?_⟩
    intro name hone hother
    exact (get?_run_of_ne Session.variableView ctx o' (s.startedAt time') hother).trans
      (get?_run_of_ne Session.variableView ctx o (s.startedAt time) hone).symm

end Directive

end ScriptInclude
