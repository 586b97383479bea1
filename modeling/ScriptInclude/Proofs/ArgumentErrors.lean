import ScriptInclude.Proofs.Effects

/-!
# Errors in the arguments

A call reads its arguments before it asks its host for anything. So a call that fails because of its arguments
has done nothing, and a call whose arguments can be read fails only at the gate or for want of the file.
-/

namespace ScriptInclude

/-! ## Reading the arguments -/

namespace Options

theorem isArgumentError_of_modify {lenient : Bool} {o : Options} {args : List String} {e : Failure}
    (h : modify lenient o args = .error e) : e.isArgumentError = true := by
  fun_induction modify lenient o args
  case case3 ih | case6 ih | case7 ih | case8 ih => exact ih h
  all_goals cases h
  all_goals rfl

theorem isArgumentError_of_parse {args : List String} {e : Failure} (h : parse args = .error e) :
    e.isArgumentError = true := by
  cases args with
  | nil => cases h; rfl
  | cons target modifiers =>
    rw [parse] at h
    split at h
    · cases h; rfl
    · exact isArgumentError_of_modify h

end Options

/-! ## Errors of a call -/

namespace Directive

variable {σ : Type} [Host σ]

theorem error_of_run {ctx : Context} {o : Options} {host : σ} {e : Failure} (h : (run ctx o host).1 = .error e) :
    e = .exportFilePolicy (Target.resolve host o.target ctx.sourceDir).path ∨ e = .fileNotFound o.target := by
  by_cases ho : o.target = ""
  · rw [run_of_empty ctx ho] at h
    cases h
  · have horder := inOrder ctx ho host
    rw [h] at horder
    by_cases hr : ExportGate.Refuses (Target.resolve host o.target ctx.sourceDir).path host
    · obtain ⟨-, he⟩ := horder.refused hr
      cases he
      exact Or.inl rfl
    · obtain ⟨-, he⟩ := horder.accepted hr
      simp only [List.mem_cons, reduceCtorEq, List.not_mem_nil, Except.error.injEq, false_or, or_false] at he
      exact Or.inr he

/-- **Errors in the arguments.** They are the errors of a call whose arguments cannot be read, and then the host
is as it was. Any other error is that the gate refuses the path or that the file is not found. -/
theorem evaluate_argument_error_iff (ctx : Context) (args : List String) (host : σ) :
    ((∃ e, (evaluate ctx args host).1 = .error e ∧ e.isArgumentError = true) ↔
        ∃ e, Options.parse args = .error e) ∧
      (∀ e, Options.parse args = .error e → evaluate ctx args host = (.error e, host)) ∧
      ∀ o e, Options.parse args = .ok o → (evaluate ctx args host).1 = .error e →
        e = .exportFilePolicy (Target.resolve host o.target ctx.sourceDir).path ∨ e = .fileNotFound o.target := by
  refine ⟨⟨?_, ?_⟩, ?_, ?_⟩
  · rintro ⟨e, he, hargument⟩
    cases hparse : Options.parse args with
    | error e => exact ⟨e, rfl⟩
    | ok o =>
      rw [evaluate_of_parse_ok hparse] at he
      rcases error_of_run he with rfl | rfl
      · cases hargument
      · cases hargument
  · rintro ⟨e, hparse⟩
    rw [evaluate_of_parse_error hparse]
    exact ⟨e, rfl, Options.isArgumentError_of_parse hparse⟩
  · intro e hparse
    exact evaluate_of_parse_error hparse ctx host
  · intro o e hparse he
    rw [evaluate_of_parse_ok hparse] at he
    exact error_of_run he

end Directive

end ScriptInclude
