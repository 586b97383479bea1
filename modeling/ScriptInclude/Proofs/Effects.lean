import ScriptInclude.Directive
import ScriptInclude.Host.Memory

/-!
# The effects of one call

All that a call of the directive does to its host is a list of effects: those of the gate, then the load,
then the binding of the result variable. A host that keeps its calls answers as before, so it shows this
list, and every path in it is the one that the target was resolved to.
-/

namespace ScriptInclude

variable {σ : Type} [Host σ]

/-! ## Effects -/

def Call.perform : Call → σ → σ
  | .generate path, host => Host.generate path host
  | .load path noPolicyScope, host => (Host.loadFile path noPolicyScope host).2
  | .define name value, host => Host.define name value host
  | .report message, host => Host.report message host

def replay (calls : List Call) (host : σ) : σ := calls.foldl (fun host c => c.perform host) host

@[simp]
theorem replay_nil (host : σ) : replay [] host = host := rfl

@[simp]
theorem replay_cons (c : Call) (calls : List Call) (host : σ) :
    replay (c :: calls) host = replay calls (c.perform host) := rfl

theorem replay_append (calls calls' : List Call) (host : σ) :
    replay (calls ++ calls') host = replay calls' (replay calls host) := List.foldl_append

/-! ## A host that keeps its calls -/

structure Recorded (σ : Type) where
  host : σ
  calls : List Call := []

namespace Recorded

def keep (c : Call) (r : Recorded σ) : Recorded σ := ⟨c.perform r.host, r.calls ++ [c]⟩

/-- Questions are passed on; effects are passed on and kept. -/
instance : Host (Recorded σ) where
  findModule? r := Host.findModule? r.host
  isFullPath r := Host.isFullPath r.host
  collapsePath r := Host.collapsePath r.host
  fileExists r := Host.fileExists r.host
  isExported r := Host.isExported r.host
  policyStatus r := Host.policyStatus r.host
  fatalReported r := Host.fatalReported r.host
  generate path := keep (.generate path)
  loadFile path noPolicyScope r := ((Host.loadFile path noPolicyScope r.host).1, r.keep (.load path noPolicyScope))
  define name value := keep (.define name value)
  report message := keep (.report message)

theorem perform_eq (c : Call) (r : Recorded σ) : c.perform r = r.keep c := by cases c <;> rfl

theorem replay_eq (calls : List Call) (r : Recorded σ) :
    replay calls r = ⟨replay calls r.host, r.calls ++ calls⟩ := by
  induction calls generalizing r with
  | nil => rw [List.append_nil]; rfl
  | cons c calls ih =>
    rw [replay_cons, perform_eq, ih, keep, List.append_assoc]
    rfl

end Recorded

/-! ## The gate -/

namespace ExportGate

def callsUnder (path : Path) : PolicyStatus → List Call
  | .old => [.generate path]
  | .warn => [.report ⟨.authorWarning, (warning path).text⟩, .generate path]
  | .new | .requiredIfUsed | .requiredAlways => [.generate path, .report ⟨.fatalError, (refusal path).text⟩]

def calls (path : Path) (host : σ) : List Call :=
  if Host.isExported host path then callsUnder path (Host.policyStatus host .cmp0024) else []

def Refuses (path : Path) (host : σ) : Prop :=
  Host.isExported host path = true ∧
    Host.policyStatus host .cmp0024 ∈ [PolicyStatus.new, .requiredIfUsed, .requiredAlways]

instance (path : Path) (host : σ) : Decidable (Refuses path host) := inferInstanceAs (Decidable (_ ∧ _))

theorem check_eq (path : Path) (host : σ) :
    check path host =
      (if Refuses path host then .error (.exportFilePolicy path) else .ok (), replay (calls path host) host) := by
  by_cases h : Host.isExported host path = true
  · cases hs : Host.policyStatus host .cmp0024 <;>
      simp [check, calls, Refuses, callsUnder, warning, refusal, Call.perform, PolicyStatus.action, h, hs]
  · simp [check, calls, Refuses, h]

end ExportGate

/-! ## Loading and binding -/

namespace Directive

def loadCalls (o : Options) (path : Path) (host : σ) : List Call :=
  if o.optional = true ∧ Host.fileExists host path = false then [] else [.load path o.noPolicyScope]

/-- The path, if the file there is loaded and can be read. -/
def loaded? (o : Options) (path : Path) (host : σ) : Option Path :=
  if o.optional = true ∧ Host.fileExists host path = false then none
  else if (Host.loadFile path o.noPolicyScope host).1 then some path else none

def bindCalls (o : Options) (loaded : Option Path) : List Call :=
  o.resultVariable.toList.map fun name => .define name ((loaded.map Path.text).getD notFoundValue)

def fileCalls (o : Options) (path : Path) (host : σ) : List Call :=
  loadCalls o path host ++ bindCalls o (loaded? o path host)

theorem eq_of_loaded? {o : Options} {path p : Path} {host : σ} (h : loaded? o path host = some p) : p = path := by
  unfold loaded? at h
  split at h
  · cases h
  · split at h <;> cases h
    rfl

theorem bind_eq (o : Options) (loaded : Option Path) (host : σ) :
    bind o.resultVariable loaded host = replay (bindCalls o loaded) host := by
  unfold bind bindCalls
  cases o.resultVariable <;> rfl

/-- How a call ends that got past the gate; `host` is the state at its end. -/
def ending (ctx : Context) (o : Options) (loaded : Option Path) (host : σ) : Result :=
  match loaded with
  | some path => .ok (.loaded path)
  | none =>
    if o.optional = true ∨ ctx.fatalReported = true ∨ Host.fatalReported host = true then .ok .notLoaded
    else .error (.fileNotFound o.target)

theorem load_eq (ctx : Context) (o : Options) (path : Path) (host : σ) :
    load ctx o path host =
      let loaded := if (Host.loadFile path o.noPolicyScope host).1 then some path else none
      let calls := .load path o.noPolicyScope :: bindCalls o loaded
      (ending ctx o loaded (replay calls host), replay calls host) := by
  unfold load
  cases hread : Host.loadFile path o.noPolicyScope host with
  | mk read next =>
    have hnext : (Call.load path o.noPolicyScope).perform host = next := by rw [Call.perform, hread]
    cases read with
    | true => simp [bind_eq, hnext, ending]
    | false =>
      simp only [bind_eq, replay_cons, hnext, ending, Bool.false_eq_true, if_false, Bool.or_eq_true, or_assoc]
      split <;> rfl

theorem loadIfPresent_eq (ctx : Context) (o : Options) (path : Path) (host : σ) :
    loadIfPresent ctx o path host =
      (ending ctx o (loaded? o path host) (replay (fileCalls o path host) host),
        replay (fileCalls o path host) host) := by
  by_cases h : o.optional = true ∧ Host.fileExists host path = false
  · simp [loadIfPresent, fileCalls, loadCalls, loaded?, bind_eq, ending, h]
  · rw [fileCalls, loadCalls, loaded?, if_neg h, if_neg h, loadIfPresent, if_neg (by simpa using h), load_eq]
    rfl

/-! ## The whole call -/

theorem evaluate_of_parse_error {args : List String} {e : Failure} (h : Options.parse args = .error e)
    (ctx : Context) (host : σ) : evaluate ctx args host = (.error e, host) := by
  simp only [evaluate, h]

theorem evaluate_of_parse_ok {args : List String} {o : Options} (h : Options.parse args = .ok o) (ctx : Context)
    (host : σ) : evaluate ctx args host = run ctx o host := by
  simp only [evaluate, h]

theorem run_of_empty (ctx : Context) {o : Options} (h : o.target = "") (host : σ) :
    run ctx o host = (.ok .ignored, replay [.report emptyTarget] host) := by
  rw [run, if_pos h]; rfl

theorem run_of_refuses (ctx : Context) {o : Options} (ho : o.target ≠ "") {path : Path} {host : σ}
    (hpath : (Target.resolve host o.target ctx.sourceDir).path = path) (h : ExportGate.Refuses path host) :
    run ctx o host = (.error (.exportFilePolicy path), replay (ExportGate.calls path host) host) := by
  simp only [run, if_neg ho, hpath, ExportGate.check_eq, if_pos h]

theorem run_of_not_refuses (ctx : Context) {o : Options} (ho : o.target ≠ "") {path : Path} {host : σ}
    (hpath : (Target.resolve host o.target ctx.sourceDir).path = path) (h : ¬ ExportGate.Refuses path host) :
    run ctx o host =
      let gated := replay (ExportGate.calls path host) host
      let final := replay (fileCalls o path gated) gated
      (ending ctx o (loaded? o path gated) final, final) := by
  simp only [run, if_neg ho, hpath, ExportGate.check_eq, if_neg h, loadIfPresent_eq]

def calls (ctx : Context) (o : Options) (host : σ) : List Call :=
  if o.target = "" then [.report emptyTarget]
  else
    let path := (Target.resolve host o.target ctx.sourceDir).path
    let gate := ExportGate.calls path host
    if ExportGate.Refuses path host then gate else gate ++ fileCalls o path (replay gate host)

theorem calls_of_refuses (ctx : Context) {o : Options} (ho : o.target ≠ "") {path : Path} {host : σ}
    (hpath : (Target.resolve host o.target ctx.sourceDir).path = path) (h : ExportGate.Refuses path host) :
    calls ctx o host = ExportGate.calls path host := by
  simp only [calls, if_neg ho, hpath, if_pos h]

theorem calls_of_not_refuses (ctx : Context) {o : Options} (ho : o.target ≠ "") {path : Path} {host : σ}
    (hpath : (Target.resolve host o.target ctx.sourceDir).path = path) (h : ¬ ExportGate.Refuses path host) :
    calls ctx o host =
      ExportGate.calls path host ++ fileCalls o path (replay (ExportGate.calls path host) host) := by
  simp only [calls, if_neg ho, hpath, if_neg h]

theorem run_snd (ctx : Context) (o : Options) (host : σ) :
    (run ctx o host).2 = replay (calls ctx o host) host := by
  by_cases ho : o.target = ""
  · rw [run_of_empty ctx ho, calls, if_pos ho]
  · by_cases h : ExportGate.Refuses (Target.resolve host o.target ctx.sourceDir).path host
    · rw [run_of_refuses ctx ho rfl h, calls_of_refuses ctx ho rfl h]
    · rw [run_of_not_refuses ctx ho rfl h, calls_of_not_refuses ctx ho rfl h, replay_append]

theorem calls_recorded (ctx : Context) (o : Options) (r : Recorded σ) : calls ctx o r = calls ctx o r.host := by
  simp only [calls, Recorded.replay_eq]
  rfl

theorem run_fst_recorded (ctx : Context) (o : Options) (r : Recorded σ) :
    (run ctx o r).1 = (run ctx o r.host).1 := by
  by_cases ho : o.target = ""
  · rw [run_of_empty ctx ho, run_of_empty ctx ho]
  · by_cases h : ExportGate.Refuses (Target.resolve r.host o.target ctx.sourceDir).path r.host
    · rw [run_of_refuses ctx ho rfl h, run_of_refuses (σ := Recorded σ) ctx ho rfl h]
      rfl
    · rw [run_of_not_refuses ctx ho rfl h, run_of_not_refuses (σ := Recorded σ) ctx ho rfl h]
      simp only [Recorded.replay_eq]
      rfl

theorem run_recorded (ctx : Context) (o : Options) (r : Recorded σ) :
    run ctx o r = ((run ctx o r.host).1, ⟨(run ctx o r.host).2, r.calls ++ calls ctx o r.host⟩) := by
  refine Prod.ext (run_fst_recorded ctx o r) ?_
  rw [run_snd, calls_recorded, Recorded.replay_eq, run_snd]

end Directive

/-! ## One path -/

/-- The effect is at `path`; a value that is bound is its text or the one for no file. -/
def Call.At (path : Path) : Call → Prop
  | .generate p | .load p _ => p = path
  | .define _ value => value = path.text ∨ value = Directive.notFoundValue
  | .report _ => True

theorem ExportGate.at_calls (path : Path) (host : σ) : ∀ c ∈ calls path host, c.At path := by
  unfold calls
  split
  · cases Host.policyStatus host .cmp0024 <;> simp [callsUnder, Call.At]
  · simp

namespace Directive

theorem at_fileCalls (o : Options) (path : Path) (host : σ) : ∀ c ∈ fileCalls o path host, c.At path := by
  intro c hc
  rcases List.mem_append.mp hc with hc | hc
  · unfold loadCalls at hc
    split at hc
    · cases hc
    · obtain rfl := List.mem_singleton.mp hc
      exact rfl
  · obtain ⟨name, -, rfl⟩ := List.mem_map.mp hc
    cases hl : loaded? o path host with
    | none => exact Or.inr rfl
    | some p => exact Or.inl (eq_of_loaded? hl ▸ rfl)

theorem ending_mem (ctx : Context) {o : Options} {path : Path} {loaded : Option Path}
    (h : ∀ p, loaded = some p → p = path) (host : σ) :
    ending ctx o loaded host ∈
      [.ok (.loaded path), .ok .notLoaded, (.error (.fileNotFound o.target) : Result)] := by
  unfold ending
  cases loaded with
  | some p => simp [h p rfl]
  | none => dsimp only; split <;> simp

end Directive

/-! ## The target of a call -/

namespace Options

theorem target_of_modify {lenient : Bool} {o o' : Options} {args : List String}
    (h : modify lenient o args = .ok o') : o'.target = o.target := by
  fun_induction modify lenient o args
  case case1 => cases h; rfl
  case case3 ih | case6 ih | case7 ih | case8 ih => exact ih h
  all_goals cases h

theorem head?_of_parse {args : List String} {o : Options} (h : parse args = .ok o) :
    args.head? = some o.target := by
  cases args with
  | nil => cases h
  | cons target modifiers =>
    rw [parse] at h
    split at h
    · cases h
    · rw [target_of_modify h]; rfl

end Options

/-! ## What a host sees -/

namespace Directive

/-- What a call does whose target is at `path`, by the state of the host before it. -/
structure InOrder (o : Options) (path : Path) (host : σ) (result : Result) (calls : List Call) : Prop where
  refused : ExportGate.Refuses path host →
    calls = ExportGate.calls path host ∧ result = .error (.exportFilePolicy path)
  accepted : ¬ ExportGate.Refuses path host →
    let gated := replay (ExportGate.calls path host) host
    calls = ExportGate.calls path host ++ (loadCalls o path gated ++ bindCalls o (loaded? o path gated)) ∧
      result ∈ [.ok (.loaded path), .ok .notLoaded, .error (.fileNotFound o.target)]
  at_path : ∀ c ∈ calls, c.At path

theorem inOrder (ctx : Context) {o : Options} (ho : o.target ≠ "") (host : σ) :
    InOrder o (Target.resolve host o.target ctx.sourceDir).path host (run ctx o host).1 (calls ctx o host) := by
  by_cases h : ExportGate.Refuses (Target.resolve host o.target ctx.sourceDir).path host
  · rw [run_of_refuses ctx ho rfl h, calls_of_refuses ctx ho rfl h]
    exact ⟨fun _ => ⟨rfl, rfl⟩, fun hno => absurd h hno, ExportGate.at_calls _ host⟩
  · rw [run_of_not_refuses ctx ho rfl h, calls_of_not_refuses ctx ho rfl h]
    refine ⟨fun hr => absurd hr h, fun _ => ⟨rfl, ending_mem ctx (fun _ => eq_of_loaded?) _⟩, fun c hc => ?_⟩
    rcases List.mem_append.mp hc with hc | hc
    · exact ExportGate.at_calls _ host c hc
    · exact at_fileCalls o _ _ c hc

/-- **One path and a fixed order of effects.** A host that keeps its calls gives the result and the state that
the host itself gives, and the calls kept are all that was done to it. -/
theorem evaluate_recorded (ctx : Context) (args : List String) (o : Options) (h : Options.parse args = .ok o)
    (host : σ) :
    let path := (Target.resolve host o.target ctx.sourceDir).path
    let recorded := evaluate ctx args (Recorded.mk host [])
    (recorded.1, recorded.2.host) = evaluate ctx args host ∧ replay recorded.2.calls host = recorded.2.host ∧
      (o.target = "" → recorded.1 = .ok .ignored ∧
        recorded.2.calls = [.report ⟨.authorWarning, emptyTarget.text⟩]) ∧
      (o.target ≠ "" → InOrder o path host recorded.1 recorded.2.calls) ∧ args.head? = some o.target := by
  have heval : ∀ {τ : Type} [Host τ] (host : τ), evaluate ctx args host = run ctx o host := by
    intro τ _ host
    simp only [evaluate, h]
  simp only [heval, run_recorded, List.nil_append]
  refine ⟨trivial, (run_snd ctx o host).symm, fun ho => ?_, fun ho => inOrder ctx ho host, Options.head?_of_parse h⟩
  rw [run_of_empty ctx ho, calls, if_pos ho]
  exact ⟨rfl, rfl⟩

/-- An optional file that only its `export()` step creates is there after the gate. -/
theorem evaluate_recorded_generated :
    let m : Memory := { exports := [⟨"/src/a.cmake"⟩] }
    let ctx : Context := { sourceDir := ⟨"/src"⟩ }
    let args := ["../src/a.cmake", "OPTIONAL", "RESULT_VARIABLE", "R"]
    (∃ o, Options.parse args = .ok o ∧ o.target ≠ "") ∧
      (evaluate ctx args (Recorded.mk m [])).2.calls =
        [.report (ExportGate.warning ⟨"/src/a.cmake"⟩), .generate ⟨"/src/a.cmake"⟩,
          .load ⟨"/src/a.cmake"⟩ false, .define "R" "/src/a.cmake"] := by
  intro m ctx args
  let o : Options := { target := "../src/a.cmake", optional := true, resultVariable := some "R" }
  have hparse : Options.parse args = .ok o := rfl
  have hpath : (Target.resolve m o.target ctx.sourceDir).path = ⟨"/src/a.cmake"⟩ := by decide
  obtain ⟨-, -, -, horder, -⟩ := evaluate_recorded ctx args o hparse m
  rw [hpath] at horder
  obtain ⟨hcalls, -⟩ := (horder (by decide)).accepted (by decide)
  refine ⟨⟨o, hparse, by decide⟩, hcalls.trans ?_⟩
  rfl

end Directive

end ScriptInclude
