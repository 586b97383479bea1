import ScriptInclude.Host.Interpreter
import ScriptInclude.Proofs.Dictionary
import ScriptInclude.Proofs.Effects

/-!
# What a call leaves behind

A result variable is bound to what the result says, and to nothing where the call was refused or ignored.
A host keeps its variables in any way that only a definition changes; nothing else that a call does
touches them. The log of loaded files grows by one file exactly when the result says so.
-/

namespace ScriptInclude

/-! ## Variables of a host -/

/-- A host's variables, which only a definition changes. -/
structure VariableView (σ : Type) [Host σ] where
  bindings : σ → Dictionary String
  bindings_generate (path : Path) (host : σ) : bindings (Host.generate path host) = bindings host
  bindings_report (message : Message) (host : σ) : bindings (Host.report message host) = bindings host
  bindings_loadFile (path : Path) (noPolicyScope : Bool) (host : σ) :
    bindings (Host.loadFile path noPolicyScope host).2 = bindings host
  bindings_define (name value : String) (host : σ) :
    bindings (Host.define name value host) = (bindings host).insert name value

def Call.definition? : Call → Option (String × String)
  | .define name value => some (name, value)
  | _ => none

def definitions (calls : List Call) : List (String × String) := calls.filterMap Call.definition?

namespace VariableView

variable {σ : Type} [Host σ] (v : VariableView σ)

theorem bindings_perform (c : Call) (host : σ) :
    v.bindings (c.perform host) = (definitions [c]).foldl (fun d e => d.insert e.1 e.2) (v.bindings host) := by
  cases c with
  | generate path => exact v.bindings_generate path host
  | load path noPolicyScope => exact v.bindings_loadFile path noPolicyScope host
  | define name value => exact v.bindings_define name value host
  | report message => exact v.bindings_report message host

theorem bindings_replay (calls : List Call) (host : σ) :
    v.bindings (replay calls host) =
      (definitions calls).foldl (fun d e => d.insert e.1 e.2) (v.bindings host) := by
  induction calls generalizing host with
  | nil => rfl
  | cons c calls ih =>
    have hsplit : definitions (c :: calls) = definitions [c] ++ definitions calls := by
      rw [definitions, ← List.singleton_append, List.filterMap_append]
      rfl
    rw [replay_cons, ih, bindings_perform, hsplit, List.foldl_append]

end VariableView

/-! ## Definitions of a call -/

variable {σ : Type} [Host σ]

theorem definitions_append (calls calls' : List Call) :
    definitions (calls ++ calls') = definitions calls ++ definitions calls' := List.filterMap_append

theorem ExportGate.definitions_calls (path : Path) (host : σ) : definitions (ExportGate.calls path host) = [] := by
  unfold ExportGate.calls
  split
  · cases Host.policyStatus host .cmp0024 <;> rfl
  · rfl

namespace Directive

/-- The value that a result gives to the result variable. -/
def boundValue? : Result → Option String
  | .ok (.loaded path) => some path.text
  | .ok .notLoaded | .error (.fileNotFound _) => some notFoundValue
  | _ => none

def requested? (args : List String) : Option String := (Options.parse args).toOption.bind Options.resultVariable

theorem boundValue?_ending (ctx : Context) (o : Options) (loaded : Option Path) (host : σ) :
    boundValue? (ending ctx o loaded host) = some ((loaded.map Path.text).getD notFoundValue) := by
  unfold ending
  cases loaded with
  | some path => rfl
  | none => dsimp only; split <;> rfl

theorem definitions_fileCalls (o : Options) (path : Path) (host : σ) :
    definitions (fileCalls o path host) =
      o.resultVariable.toList.map fun name => (name, ((loaded? o path host).map Path.text).getD notFoundValue) := by
  have hload : definitions (loadCalls o path host) = [] := by
    unfold loadCalls
    split <;> rfl
  rw [fileCalls, definitions_append, hload]
  cases h : o.resultVariable <;> simp [bindCalls, definitions, Call.definition?, h]

/-- What a call puts into the variables. -/
def bindingsOf (name? value? : Option String) : List (String × String) :=
  (name?.bind fun name => value?.map fun value => (name, value)).toList

theorem definitions_calls (ctx : Context) (o : Options) (host : σ) :
    definitions (calls ctx o host) = bindingsOf o.resultVariable (boundValue? (run ctx o host).1) := by
  have hnone : ∀ name? : Option String, bindingsOf name? none = [] := fun name? => by cases name? <;> rfl
  by_cases ho : o.target = ""
  · rw [run_of_empty ctx ho, calls, if_pos ho]
    exact (hnone _).symm
  · by_cases h : ExportGate.Refuses (Target.resolve host o.target ctx.sourceDir).path host
    · rw [run_of_refuses ctx ho rfl h, calls_of_refuses ctx ho rfl h, ExportGate.definitions_calls]
      exact (hnone _).symm
    · rw [run_of_not_refuses ctx ho rfl h, calls_of_not_refuses ctx ho rfl h, definitions_append,
        ExportGate.definitions_calls, definitions_fileCalls]
      dsimp only
      rw [boundValue?_ending]
      cases o.resultVariable <;> rfl

theorem bindings_evaluate (v : VariableView σ) (ctx : Context) (args : List String) (host : σ) :
    v.bindings (evaluate ctx args host).2 =
      (bindingsOf (requested? args) (boundValue? (evaluate ctx args host).1)).foldl
        (fun d e => d.insert e.1 e.2) (v.bindings host) := by
  unfold evaluate requested?
  cases h : Options.parse args with
  | error e => rfl
  | ok o =>
    dsimp only
    rw [run_snd, v.bindings_replay, definitions_calls]
    rfl

/-! ## What the variables say afterwards -/

/-- The variables before and after a call with the given result. -/
structure Bound (args : List String) (result : Result) (before after : Dictionary String) : Prop where
  requested : ∀ name, requested? args = some name → after.get? name = (boundValue? result).or (before.get? name)
  other : ∀ name, requested? args ≠ some name → after.get? name = before.get? name
  unrequested : requested? args = none → after = before

theorem bound_evaluate (v : VariableView σ) (ctx : Context) (args : List String) (host : σ) :
    Bound args (evaluate ctx args host).1 (v.bindings host) (v.bindings (evaluate ctx args host).2) := by
  have hafter := bindings_evaluate v ctx args host
  constructor
  · intro name hname
    rw [hafter, hname]
    cases boundValue? (evaluate ctx args host).1 <;> simp [bindingsOf]
  · intro name hname
    rw [hafter]
    cases hreq : requested? args with
    | none => rfl
    | some requested =>
      have hne : name ≠ requested := fun h => hname (h ▸ hreq)
      cases boundValue? (evaluate ctx args host).1 <;> simp [bindingsOf, hne]
  · intro hnone
    rw [hafter, hnone]
    rfl

end Directive

/-! ## The two hosts -/

namespace Memory

theorem bindings_foldl_report (messages : List Message) (m : Memory) :
    (messages.foldl (fun m message => m.report message) m).bindings = m.bindings := by
  induction messages generalizing m with
  | nil => rfl
  | cons message messages ih => rw [List.foldl_cons, ih]; rfl

def variableView : VariableView Memory where
  bindings := Memory.bindings
  bindings_generate path m := by
    change (m.generate path).bindings = m.bindings
    unfold generate
    dsimp only
    split <;> rfl
  bindings_report _ _ := rfl
  bindings_loadFile path noPolicyScope m := by
    change (m.loadFile path noPolicyScope).2.bindings = m.bindings
    unfold loadFile
    dsimp only
    split
    · rfl
    · rw [bindings_foldl_report]; rfl
  bindings_define _ _ _ := rfl

end Memory

namespace Session

/-- The scope of a file is closed again, whatever was read in it. -/
theorem loadFile_eq_readFile (path : Path) (noPolicyScope : Bool) (s : Session) :
    s.loadFile path noPolicyScope = s.readFile path noPolicyScope := by
  unfold loadFile
  split
  · rfl
  · unfold readFile
    dsimp only
    cases s.world.readText path <;> rfl

theorem readFile_fst (path : Path) (noPolicyScope : Bool) (s : Session) :
    (s.readFile path noPolicyScope).1 = (s.world.readText path).isOk := by
  unfold readFile
  cases s.world.readText path <;> rfl

theorem loadFile_fst (path : Path) (noPolicyScope : Bool) (s : Session) :
    (Host.loadFile path noPolicyScope s).1 = (s.world.readText path).isOk := by
  change (s.loadFile path noPolicyScope).1 = _
  rw [loadFile_eq_readFile, readFile_fst]

theorem bindings_generate (path : Path) (s : Session) :
    (s.generate path).interpreter.bindings = s.interpreter.bindings := by
  unfold generate
  split
  · rfl
  · split <;> rfl

theorem loaded_generate (path : Path) (s : Session) :
    (s.generate path).interpreter.loaded = s.interpreter.loaded := by
  unfold generate
  split
  · rfl
  · split <;> rfl

def variableView : VariableView Session where
  bindings s := s.interpreter.bindings
  bindings_generate := bindings_generate
  bindings_report _ _ := rfl
  bindings_loadFile path noPolicyScope s := by
    change (s.loadFile path noPolicyScope).2.interpreter.bindings = s.interpreter.bindings
    rw [loadFile_eq_readFile]
    unfold readFile
    split <;> rfl
  bindings_define _ _ _ := rfl

/-! ## The log of loaded files -/

theorem loaded_loadFile (path : Path) (noPolicyScope : Bool) (s : Session) :
    (Host.loadFile path noPolicyScope s).2.interpreter.loaded =
      s.interpreter.loaded ++ if (Host.loadFile path noPolicyScope s).1 then [⟨path, noPolicyScope⟩] else [] := by
  rw [loadFile_fst]
  change (s.loadFile path noPolicyScope).2.interpreter.loaded = _
  rw [loadFile_eq_readFile]
  unfold readFile
  cases s.world.readText path with
  | ok text => rfl
  | error e => exact (List.append_nil s.interpreter.loaded).symm

theorem loaded_gate (path : Path) (s : Session) :
    (replay (ExportGate.calls path s) s).interpreter.loaded = s.interpreter.loaded := by
  unfold ExportGate.calls
  split
  · cases Host.policyStatus s .cmp0024 <;> exact loaded_generate path _
  · rfl

theorem loaded_bindCalls (o : Options) (loaded : Option Path) (s : Session) :
    (replay (Directive.bindCalls o loaded) s).interpreter.loaded = s.interpreter.loaded := by
  unfold Directive.bindCalls
  cases o.resultVariable <;> rfl

theorem loaded_fileCalls (o : Options) (path : Path) (s : Session) :
    (replay (Directive.fileCalls o path s) s).interpreter.loaded =
      s.interpreter.loaded ++ (Directive.loaded? o path s).toList.map fun p => ⟨p, o.noPolicyScope⟩ := by
  unfold Directive.fileCalls Directive.loadCalls Directive.loaded?
  rw [replay_append, loaded_bindCalls]
  split
  · exact (List.append_nil s.interpreter.loaded).symm
  · change (Host.loadFile path o.noPolicyScope s).2.interpreter.loaded = _
    rw [loaded_loadFile]
    split <;> rfl

/-! ## The world -/

theorem world_readFile (path : Path) (noPolicyScope : Bool) (s : Session) :
    (s.readFile path noPolicyScope).2.world = s.world := by
  unfold readFile
  split <;> rfl

theorem world_fileCalls (o : Options) (path : Path) (s : Session) :
    (replay (Directive.fileCalls o path s) s).world = s.world := by
  have hbind : ∀ loaded (s : Session), (replay (Directive.bindCalls o loaded) s).world = s.world := by
    intro loaded s
    unfold Directive.bindCalls
    cases o.resultVariable <;> rfl
  rw [Directive.fileCalls, replay_append, hbind]
  unfold Directive.loadCalls
  split
  · rfl
  · change (s.loadFile path o.noPolicyScope).2.world = s.world
    rw [loadFile_eq_readFile, world_readFile]

end Session

namespace Directive

/-- The log before and after a call with the given result. -/
structure Logged (args : List String) (result : Result) (before after : List LoadedFile) : Prop where
  loaded : ∀ path, result = .ok (.loaded path) →
    ∃ o, Options.parse args = .ok o ∧ after = before ++ [⟨path, o.noPolicyScope⟩]
  not_loaded : (∀ path, result ≠ .ok (.loaded path)) → after = before

theorem Logged.of_not_loaded {args : List String} {result : Result} {log : List LoadedFile}
    (h : ∀ path, result ≠ .ok (.loaded path)) : Logged args result log log :=
  ⟨fun path hpath => absurd hpath (h path), fun _ => rfl⟩

theorem logged_run (ctx : Context) {args : List String} {o : Options} (hargs : Options.parse args = .ok o)
    (s : Session) : Logged args (run ctx o s).1 s.interpreter.loaded (run ctx o s).2.interpreter.loaded := by
  by_cases ho : o.target = ""
  · rw [run_of_empty ctx ho]
    exact .of_not_loaded fun path hpath => by cases hpath
  · by_cases h : ExportGate.Refuses (Target.resolve s o.target ctx.sourceDir).path s
    · rw [run_of_refuses ctx ho rfl h]
      dsimp only
      rw [Session.loaded_gate]
      exact .of_not_loaded fun path hpath => by cases hpath
    · rw [run_of_not_refuses ctx ho rfl h]
      dsimp only
      rw [Session.loaded_fileCalls, Session.loaded_gate]
      cases loaded? o (Target.resolve s o.target ctx.sourceDir).path
          (replay (ExportGate.calls (Target.resolve s o.target ctx.sourceDir).path s) s) with
      | some path =>
        refine ⟨fun path' hpath => ⟨o, hargs, ?_⟩, fun hno => absurd rfl (hno path)⟩
        cases hpath
        rfl
      | none =>
        simp only [Option.toList_none, List.map_nil, List.append_nil]
        refine .of_not_loaded fun path hpath => ?_
        unfold ending at hpath
        dsimp only at hpath
        split at hpath <;> cases hpath

theorem logged_evaluate (ctx : Context) (args : List String) (s : Session) :
    Logged args (evaluate ctx args s).1 s.interpreter.loaded (evaluate ctx args s).2.interpreter.loaded := by
  unfold evaluate
  cases hargs : Options.parse args with
  | error e => exact .of_not_loaded fun path hpath => by cases hpath
  | ok o => exact logged_run ctx hargs s

/-- **What a call leaves behind.** The log grows by the file that the result names as loaded, and by nothing
else. The requested variable is bound to what the result says, and no other variable changes. -/
theorem evaluate_binds_and_logs (ctx : Context) (args : List String) :
    (∀ s : Session,
      let result := (evaluate ctx args s).1
      let after := (evaluate ctx args s).2.interpreter
      Logged args result s.interpreter.loaded after.loaded ∧
        Bound args result s.interpreter.bindings after.bindings) ∧
      ∀ m : Memory, Bound args (evaluate ctx args m).1 m.bindings (evaluate ctx args m).2.bindings :=
  ⟨fun s => ⟨logged_evaluate ctx args s, bound_evaluate Session.variableView ctx args s⟩,
    fun m => bound_evaluate Memory.variableView ctx args m⟩

end Directive

end ScriptInclude
