import ScriptInclude.Proofs.FatalErrors
import ScriptInclude.Proofs.Modifiers

/-!
# Every message accounted for

A call tells its author about an empty target, or about the exported file that the target leads to. All that it adds
to the messages and to the log of generated files is known from the policy and from how the generation goes, and the
only fatal message is the one that says why the call is refused.
-/

namespace ScriptInclude

variable {ms ms' : List Message} {ps ps' : List Path} {i j k : Interpreter}

/-- What is added to the messages, and to the log of generated files. -/
structure Adds (messages : List Message) (generated : List Path) (before after : Interpreter) : Prop where
  messages : after.messages = before.messages ++ messages
  generated : after.generated = before.generated ++ generated

namespace Adds

theorem refl (i : Interpreter) : Adds [] [] i i := ⟨by simp, by simp⟩

theorem trans (h₁ : Adds ms ps i j) (h₂ : Adds ms' ps' j k) : Adds (ms ++ ms') (ps ++ ps') i k := by
  constructor
  · rw [h₂.messages, h₁.messages, List.append_assoc]
  · rw [h₂.generated, h₁.generated, List.append_assoc]

theorem report (m : Message) (i : Interpreter) : Adds [m] [] i (i.report m) := ⟨rfl, by simp [Interpreter.report]⟩

end Adds

/-! ## The gate -/

namespace ExportFile

def failures : Except WriteError Unit → List Message
  | .ok () => []
  | .error err => [⟨.warning, err.message⟩]

theorem countP_failures (r : Except WriteError Unit) : (failures r).countP Message.isFatal = 0 := by
  cases r <;> rfl

def logged (e : ExportFile) : Except WriteError Unit → List Path
  | .ok () => [e.path]
  | .error _ => []

theorem adds_note (e : ExportFile) (i : Interpreter) (r : Except WriteError Unit) :
    Adds (failures r) (e.logged r) i (i.note e r) := by
  cases r with
  | ok u => exact ⟨by simp [failures, Interpreter.note], rfl⟩
  | error err => exact ⟨rfl, by simp [logged, Interpreter.note]⟩

end ExportFile

namespace ExportGate

/-- What is told before the file is generated. -/
def warnings (path : Path) (status : PolicyStatus) : List Message :=
  if status = .warn then [⟨.authorWarning, (warning path).text⟩] else []

/-- What is told afterwards. -/
def refusals (path : Path) (status : PolicyStatus) : List Message :=
  if status ∈ [PolicyStatus.new, .requiredIfUsed, .requiredAlways] then [⟨.fatalError, (refusal path).text⟩] else []

theorem countP_warnings (path : Path) (status : PolicyStatus) : (warnings path status).countP Message.isFatal = 0 := by
  cases status <;> rfl

theorem countP_refusals (path : Path) (status : PolicyStatus) :
    (refusals path status).countP Message.isFatal =
      (decide (status ∈ [PolicyStatus.new, .requiredIfUsed, .requiredAlways])).toNat := by
  cases status <;> rfl

end ExportGate

namespace Session

variable {s : Session} {p : Path} {e : ExportFile}

theorem adds_generate (he : s.interpreter.exportFile? p = some e) :
    Adds (ExportFile.failures (e.write s.world).2) (e.logged (e.write s.world).2) s.interpreter
      (s.generate p).interpreter := by
  rw [generate_of_some he]
  exact e.adds_note s.interpreter _

theorem adds_gate (he : s.interpreter.exportFile? p = some e) :
    let status := s.interpreter.policyStatus .cmp0024
    let r := (e.write s.world).2
    Adds (ExportGate.warnings p status ++ (ExportFile.failures r ++ ExportGate.refusals p status)) (e.logged r)
      s.interpreter (replay (ExportGate.calls p s) s).interpreter := by
  have hregistered : Host.isExported s p = true := by
    show (s.interpreter.exportFile? p).isSome = true
    rw [he]
    rfl
  have hstatus : Host.policyStatus s .cmp0024 = s.interpreter.policyStatus .cmp0024 := rfl
  have hgenerate := adds_generate he
  unfold ExportGate.calls
  rw [if_pos hregistered, hstatus]
  dsimp only
  cases s.interpreter.policyStatus .cmp0024 with
  | old =>
    show Adds _ _ s.interpreter (s.generate p).interpreter
    simpa [ExportGate.warnings, ExportGate.refusals] using hgenerate
  | warn =>
    let m : Message := ⟨.authorWarning, (ExportGate.warning p).text⟩
    have hwarned : Adds (ExportFile.failures (e.write s.world).2) (e.logged (e.write s.world).2)
        (s.interpreter.report m) ((s.report m).generate p).interpreter := adds_generate (s := s.report m) he
    show Adds _ _ s.interpreter ((s.report m).generate p).interpreter
    simpa [ExportGate.warnings, ExportGate.refusals] using (Adds.report m s.interpreter).trans hwarned
  | new | requiredIfUsed | requiredAlways =>
    let m : Message := ⟨.fatalError, (ExportGate.refusal p).text⟩
    show Adds _ _ s.interpreter ((s.generate p).interpreter.report m)
    simpa [ExportGate.warnings, ExportGate.refusals] using hgenerate.trans (Adds.report m (s.generate p).interpreter)

theorem adds_gate_of_none (h : s.interpreter.exportFile? p = none) :
    Adds [] [] s.interpreter (replay (ExportGate.calls p s) s).interpreter := by
  have hno : ¬ Host.isExported s p = true := by
    show ¬ (s.interpreter.exportFile? p).isSome = true
    simp [h]
  rw [ExportGate.calls, if_neg hno]
  exact Adds.refl s.interpreter

end Session

/-! ## The call -/

namespace Directive

def isRefusal : Result → Bool
  | .error (.exportFilePolicy _) => true
  | _ => false

theorem isRefusal_run {ctx : Context} {o : Options} (ho : o.target ≠ "") (s : Session) :
    isRefusal (run ctx o s).1 = decide (ExportGate.Refuses (Target.resolve s o.target ctx.sourceDir).path s) := by
  rw [Session.run_fst, if_neg ho]
  dsimp only
  split
  · next h => simp [h, isRefusal]
  · next h =>
    split
    · simp [h, isRefusal]
    · split <;> simp [h, isRefusal]

theorem isRefusal_of_parse_error {args : List String} {err : Failure} (h : Options.parse args = .error err) :
    isRefusal (.error err) = false := by
  have hargument := Options.isArgumentError_of_parse h
  cases err with
  | exportFilePolicy path => cases hargument
  | _ => rfl

theorem refuses_iff_of_some {p : Path} {s : Session} {e : ExportFile} (he : s.interpreter.exportFile? p = some e) :
    ExportGate.Refuses p s ↔
      s.interpreter.policyStatus .cmp0024 ∈ [PolicyStatus.new, .requiredIfUsed, .requiredAlways] := by
  apply and_iff_right
  show (s.interpreter.exportFile? p).isSome = true
  rw [he]
  rfl

theorem not_refuses_of_none {p : Path} {s : Session} (he : s.interpreter.exportFile? p = none) :
    ¬ ExportGate.Refuses p s := by
  intro h
  have hsome : (s.interpreter.exportFile? p).isSome = true := h.1
  rw [he] at hsome
  cases hsome

/-- What a call adds is what is added before it comes to the file. -/
theorem adds_run {ctx : Context} {o : Options} (ho : o.target ≠ "") {s : Session}
    (h : Adds ms ps s.interpreter
      (replay (ExportGate.calls (Target.resolve s o.target ctx.sourceDir).path s) s).interpreter) :
    Adds ms ps s.interpreter (run ctx o s).2.interpreter := by
  rw [Session.run_snd, prepared, if_neg ho]
  exact ⟨h.messages, h.generated⟩

/-- What a call adds, where the result tells how much of it is fatal. -/
structure Accounts (messages : List Message) (generated : List Path) (s : Session) (call : Result × Session) :
    Prop where
  adds : Adds messages generated s.interpreter call.2.interpreter
  fatal : messages.countP Message.isFatal = (isRefusal call.1).toNat

theorem accounts_of_parse_error {args : List String} {err : Failure} (h : Options.parse args = .error err)
    (ctx : Context) (s : Session) : Accounts [] [] s (evaluate ctx args s) := by
  rw [evaluate_of_parse_error h]
  refine ⟨Adds.refl s.interpreter, ?_⟩
  rw [isRefusal_of_parse_error h]
  rfl

variable {ctx : Context} {o : Options} {s : Session} {p : Path}

theorem accounts_of_empty (ho : o.target = "") :
    Accounts [⟨.authorWarning, emptyTarget.text⟩] [] s (run ctx o s) := by
  rw [run_of_empty ctx ho]
  exact ⟨Adds.report emptyTarget s.interpreter, rfl⟩

theorem accounts_of_none (ho : o.target ≠ "") (hp : (Target.resolve s o.target ctx.sourceDir).path = p)
    (he : s.interpreter.exportFile? p = none) : Accounts [] [] s (run ctx o s) := by
  subst hp
  refine ⟨adds_run ho (Session.adds_gate_of_none he), ?_⟩
  rw [isRefusal_run ho, decide_eq_false (not_refuses_of_none he)]
  rfl

theorem accounts_of_some (ho : o.target ≠ "") (hp : (Target.resolve s o.target ctx.sourceDir).path = p)
    {e : ExportFile} (he : s.interpreter.exportFile? p = some e) :
    let status := s.interpreter.policyStatus .cmp0024
    let r := (e.write s.world).2
    Accounts (ExportGate.warnings p status ++ (ExportFile.failures r ++ ExportGate.refusals p status)) (e.logged r) s
      (run ctx o s) := by
  subst hp
  refine ⟨adds_run ho (Session.adds_gate he), ?_⟩
  rw [isRefusal_run ho, decide_eq_decide.mpr (refuses_iff_of_some he), List.countP_append, List.countP_append,
    ExportGate.countP_warnings, ExportFile.countP_failures, ExportGate.countP_refusals, Nat.zero_add, Nat.zero_add]

/-- The number of fatal messages and the flag follow from the messages. -/
theorem Accounts.settle {args : List String} (h : Accounts ms ps s (evaluate ctx args s)) :
    let call := evaluate ctx args s
    call.2.interpreter.messages.countP Message.isFatal =
        s.interpreter.messages.countP Message.isFatal + (isRefusal call.1).toNat ∧
      call.2.interpreter.fatal = (s.interpreter.fatal || isRefusal call.1) := by
  intro call
  have hcount : ms.countP Message.isFatal = (isRefusal call.1).toNat := h.fatal
  constructor
  · rw [h.adds.messages, List.countP_append, h.fatal]
  · obtain ⟨added, hadded, hfatal⟩ := Session.messageView.reports_evaluate ctx args s
    obtain rfl : ms = added := List.append_cancel_left (h.adds.messages.symm.trans hadded)
    have hany : ms.any Message.isFatal = isRefusal call.1 := by
      cases hrefusal : isRefusal call.1 with
      | false => simpa [List.countP_eq_zero, hrefusal] using hcount
      | true =>
        have hpos : 0 < ms.countP Message.isFatal := by simp [hcount, hrefusal]
        simpa using List.countP_pos_iff.mp hpos
    rw [← hany]
    exact hfatal

/-- **Every message is accounted for.** Nothing else is told than that the target is empty; or, where the target
leads to a registered file, the warning of the policy, then what kept the file from being generated, then the
refusal. Only the refusal is fatal, and it comes exactly with the result that says so: no file that is missing and
no file that could not be generated raises the flag. -/
theorem evaluate_accounts (ctx : Context) (args : List String) (s : Session) :
    let before := s.interpreter
    let call := evaluate ctx args s
    let after := call.2.interpreter
    (match Options.parse args with
      | .error _ => Adds [] [] before after
      | .ok o =>
        if o.target = "" then Adds [⟨.authorWarning, emptyTarget.text⟩] [] before after
        else
          let p := (Target.resolve s o.target ctx.sourceDir).path
          let status := before.policyStatus .cmp0024
          match before.exportFile? p with
          | none => Adds [] [] before after
          | some e =>
            match (e.write s.world).2 with
            | .ok () => Adds (ExportGate.warnings p status ++ ExportGate.refusals p status) [e.path] before after
            | .error err =>
              Adds (ExportGate.warnings p status ++ ⟨.warning, err.message⟩ :: ExportGate.refusals p status) []
                before after) ∧
      after.messages.countP Message.isFatal = before.messages.countP Message.isFatal + (isRefusal call.1).toNat ∧
      after.fatal = (before.fatal || isRefusal call.1) := by
  intro before call after
  cases hparse : Options.parse args with
  | error err =>
    have h := accounts_of_parse_error hparse ctx s
    exact ⟨h.adds, h.settle⟩
  | ok o =>
    have hcall : run ctx o s = evaluate ctx args s := (evaluate_of_parse_ok hparse ctx s).symm
    dsimp only
    by_cases ho : o.target = ""
    · have h : Accounts _ _ s (run ctx o s) := accounts_of_empty ho
      rw [hcall] at h
      rw [if_pos ho]
      exact ⟨h.adds, h.settle⟩
    · rw [if_neg ho]
      cases he : before.exportFile? (Target.resolve s o.target ctx.sourceDir).path with
      | none =>
        have h := accounts_of_none ho rfl he
        rw [hcall] at h
        exact ⟨h.adds, h.settle⟩
      | some e =>
        have h := accounts_of_some ho rfl he
        dsimp only at h ⊢
        rw [hcall] at h
        cases hwrite : (e.write s.world).2 with
        | ok u =>
          rw [hwrite] at h
          exact ⟨h.adds, h.settle⟩
        | error err =>
          rw [hwrite] at h
          exact ⟨h.adds, h.settle⟩

/-- The call is refused, and a directory stands where the file should be generated. -/
example :
    let e : ExportFile := { path := ⟨"/T.cmake"⟩ }
    let scope := PolicySettings.unset.set .cmp0024 .new
    let s : Session := ⟨{ exportFiles := [e], scopes := [scope] }, { tree := { entries := [(["T.cmake"], .directory)] } }⟩
    let after := (evaluate { sourceDir := ⟨"/"⟩ } ["T.cmake"] s).2.interpreter
    after.messages.map Message.level = [.warning, .fatalError] ∧ after.generated = [] ∧ after.fatal = true := by
  decide +kernel

end Directive

end ScriptInclude
