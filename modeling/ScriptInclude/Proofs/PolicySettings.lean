import ScriptInclude.Config.Basic
import ScriptInclude.Proofs.Dictionary

/-!
# Which setting of a policy is in force

Settings are kept by the text of a key and mean the policy that the key names, in any case and with
blanks around it. Several keys may name one policy; they are read in the order of keys, so the last of
them decides.
-/

namespace ScriptInclude

/-! ## Keys that name a policy -/

namespace Policy

def names (p : Policy) (key : String) : Bool := decide (read key = .ok p)

@[simp]
theorem read_name (p : Policy) : read p.name = .ok p := by cases p; decide

theorem names_iff_of_read {q : Policy} {key : String} (h : read key = .ok q) (p : Policy) :
    p.names key = true ↔ q = p := by
  simp [names, h]

end Policy

/-! ## Reading settings -/

namespace PolicySettings

theorem setAll_cons {name : String} {q : Policy} (h : Policy.read name = .ok q) (v : PolicyStatus)
    (es : List (String × PolicyStatus)) (s : PolicySettings) :
    setAll ((name, v) :: es) s = setAll es (s.set q v) := by
  rw [setAll, h]; rfl

theorem setAll_cons_error {name : String} {err : PolicyError} (h : Policy.read name = .error err)
    (v : PolicyStatus) (es : List (String × PolicyStatus)) (s : PolicySettings) :
    setAll ((name, v) :: es) s = .error err := by
  rw [setAll, h]; rfl

theorem status?_set (s : PolicySettings) (q : Policy) (v : PolicyStatus) (p : Policy) :
    (s.set q v).status? p = if p = q then some v else s.status? p := rfl

/-- All keys have to name a policy. -/
theorem setAll_isOk : ∀ {es : List (String × PolicyStatus)} {s : PolicySettings},
    (∃ m, setAll es s = .ok m) ↔ ∀ e ∈ es, ∃ q, Policy.read e.1 = .ok q
  | [], s => by simp [setAll]
  | (name, v) :: es, s => by
    rw [List.forall_mem_cons]
    cases h : Policy.read name with
    | error err => simp [setAll_cons_error h]
    | ok q => simp [setAll_cons h, setAll_isOk]

/-- The last entry that names `p` decides; without one `p` stays as it was. -/
theorem status?_setAll (p : Policy) {es : List (String × PolicyStatus)} {s m : PolicySettings}
    (h : setAll es s = .ok m) :
    m.status? p = ((es.filter fun e => p.names e.1).getLast?.map Prod.snd).or (s.status? p) := by
  induction es generalizing s with
  | nil => cases h; simp
  | cons e es ih =>
    obtain ⟨name, v⟩ := e
    cases hr : Policy.read name with
    | error err => rw [setAll_cons_error hr] at h; cases h
    | ok q =>
      rw [setAll_cons hr] at h
      rw [ih h, status?_set, List.filter_cons]
      by_cases hq : q = p
      · rw [if_pos hq.symm, if_pos ((Policy.names_iff_of_read hr p).mpr hq), List.getLast?_cons]
        cases (es.filter fun e => p.names e.1).getLast? <;> rfl
      · rw [if_neg (Ne.symm hq), if_neg (mt (Policy.names_iff_of_read hr p).mp hq)]

theorem ofNamed_isOk {d : Dictionary PolicyStatus} :
    (∃ m, ofNamed d = .ok m) ↔ ∀ k ∈ d.keys, ∃ q, Policy.read k = .ok q := by
  simp only [ofNamed, setAll_isOk, Dictionary.keys, List.forall_mem_map]

theorem status?_ofNamed {d : Dictionary PolicyStatus} {m : PolicySettings} (h : ofNamed d = .ok m) (p : Policy) :
    m.status? p = (d.last? p.names).map Prod.snd := by
  rw [status?_setAll p h]; simp [Dictionary.last?, unset]

end PolicySettings

/-! ## What a configuration reports -/

namespace Config

/-- The policies of `c` can be read. -/
def Readable (c : Config) : Prop := ∃ m, c.policySettings = .ok m

/-- The settings of `c`, and a host set up with it, have `p` at `s`. -/
def Reports (c : Config) (p : Policy) (s : PolicyStatus) : Prop :=
  (∃ m, c.policySettings = .ok m ∧ m.status p = s) ∧ ∃ i, c.interpreter = .ok i ∧ i.policyStatus p = s

theorem readable_iff {c : Config} : c.Readable ↔ ∀ k ∈ c.policies.keys, ∃ q, Policy.read k = .ok q :=
  PolicySettings.ofNamed_isOk

/-- A host is set up exactly if the policies can be read, and it is new. -/
theorem interpreter_eq_ok {c : Config} {i : Interpreter} :
    c.interpreter = .ok i ↔ ∃ settings, c.policySettings = .ok settings ∧
      i = { moduleDirs := c.modulePath ++ c.modulesRoot.toList, exportFiles := c.exportFiles, scopes := [settings] } := by
  unfold interpreter
  cases hs : c.policySettings with
  | error e => simp [bind, Except.bind]
  | ok settings => simp [bind, Except.bind, pure, Except.pure, eq_comm]

theorem policyStatus_interpreter {c : Config} {m : PolicySettings} (h : c.policySettings = .ok m) :
    ∃ i, c.interpreter = .ok i ∧ ∀ p, i.policyStatus p = m.status p := by
  rw [interpreter, h]
  exact ⟨_, rfl, fun _ => rfl⟩

theorem reports_iff_status {c : Config} {m : PolicySettings} (h : c.policySettings = .ok m) (p : Policy)
    (s : PolicyStatus) : c.Reports p s ↔ m.status p = s := by
  obtain ⟨i, hi, hp⟩ := policyStatus_interpreter h
  simp [Reports, h, hi, hp]

/-- What a configuration reports, by the last key that names the policy. -/
theorem reports_iff_last? {c : Config} (h : c.Readable) (p : Policy) (s : PolicyStatus) :
    c.Reports p s ↔ ((c.policies.last? p.names).map Prod.snd).getD .warn = s := by
  obtain ⟨m, hm⟩ := h
  rw [reports_iff_status hm, PolicySettings.status, PolicySettings.status?_ofNamed hm]

end Config

end ScriptInclude
