import ScriptInclude.CommandLine
import ScriptInclude.Proofs.PolicySettings

/-!
# Policies laid over a configuration

A caller or a command line sets a policy under its own name, and a configuration laid over a base brings
the keys of both. All keys stay, also those that name one policy, and the last one is in force. So a
setting is lost where the layer below has a key for the policy that comes later in the order of keys,
such as its name in small letters.
-/

namespace ScriptInclude

namespace Config

/-- A key that names `p` comes after the name itself. -/
def LaterKey (c : Config) (p : Policy) : Prop := ∃ k ∈ c.policies.keys, p.names k = true ∧ p.name < k

/-! ## Setting one policy -/

theorem readable_setPolicy {c : Config} (h : c.Readable) (q : Policy) (s : PolicyStatus) :
    (c.setPolicy q s).Readable := by
  refine readable_iff.mpr fun k hk => ?_
  rcases Dictionary.mem_keys_insert.mp hk with rfl | hk
  · exact ⟨q, Policy.read_name q⟩
  · exact readable_iff.mp h k hk

theorem laterKey_setPolicy {c : Config} {q : Policy} {s : PolicyStatus} {p : Policy} :
    (c.setPolicy q s).LaterKey p ↔ c.LaterKey p := by
  constructor
  · rintro ⟨k, hk, hp, hlt⟩
    rcases Dictionary.mem_keys_insert.mp hk with rfl | hk
    · rw [Policy.names_iff_of_read (Policy.read_name q)] at hp
      exact absurd hlt (hp ▸ String.lt_irrefl _)
    · exact ⟨k, hk, hp, hlt⟩
  · rintro ⟨k, hk, hp, hlt⟩
    exact ⟨k, Dictionary.mem_keys_insert.mpr (Or.inr hk), hp, hlt⟩

theorem last?_setPolicy_of_ne {q p : Policy} (hq : q ≠ p) (c : Config) (s : PolicyStatus) :
    (c.setPolicy q s).policies.last? p.names = c.policies.last? p.names := by
  apply Dictionary.last?_insert_of_test_eq_false
  have := mt (Policy.names_iff_of_read (Policy.read_name q) p).mp hq
  simpa using this

theorem last?_setPolicy_of_laterKey {c : Config} {p : Policy} (h : c.LaterKey p) (q : Policy) (s : PolicyStatus) :
    (c.setPolicy q s).policies.last? p.names = c.policies.last? p.names := by
  by_cases hq : q = p
  · subst hq; exact Dictionary.last?_insert_of_lt s h
  · exact last?_setPolicy_of_ne hq c s

theorem last?_setPolicy_of_not_laterKey {c : Config} {p : Policy} (h : ¬ c.LaterKey p) (s : PolicyStatus) :
    (c.setPolicy p s).policies.last? p.names = some (p.name, s) :=
  Dictionary.last?_insert_of_not_lt s ((Policy.names_iff_of_read (Policy.read_name p) p).mpr rfl) h

end Config

/-! ## Settings from a command line -/

namespace CommandLine

/-- The statuses that settings give `p`, in order. -/
def statusesFor (p : Policy) (settings : List (String × String)) : List PolicyStatus :=
  settings.filterMap fun x => if p.names x.1 then (PolicyStatus.read x.2).toOption else none

theorem statusesFor_cons {id status : String} {q : Policy} {s : PolicyStatus} (hq : Policy.read id = .ok q)
    (hs : PolicyStatus.read status = .ok s) (p : Policy) (rest : List (String × String)) :
    statusesFor p ((id, status) :: rest) = if q = p then s :: statusesFor p rest else statusesFor p rest := by
  unfold statusesFor
  rw [List.filterMap_cons]
  by_cases h : q = p
  · simp [h, (Policy.names_iff_of_read hq p).mpr h, hs, Except.toOption]
  · rw [if_neg (mt (Policy.names_iff_of_read hq p).mp h), if_neg h]

theorem applyPolicies_cons_ok {c c' : Config} {id status : String} {rest : List (String × String)}
    (h : applyPolicies c ((id, status) :: rest) = (c', .ok ())) :
    ∃ q s, Policy.read id = .ok q ∧ PolicyStatus.read status = .ok s ∧
      applyPolicies (c.setPolicy q s) rest = (c', .ok ()) := by
  unfold applyPolicies at h
  split at h
  · cases h
  · cases h
  · next q s hq hs => exact ⟨q, s, hq, hs, h⟩

theorem readable_applyPolicies {settings : List (String × String)} {c c' : Config}
    (h : applyPolicies c settings = (c', .ok ())) (hc : c.Readable) : c'.Readable := by
  induction settings generalizing c with
  | nil => cases h; exact hc
  | cons x rest ih =>
    obtain ⟨q, s, -, -, h⟩ := applyPolicies_cons_ok h
    exact ih h (Config.readable_setPolicy hc q s)

theorem last?_applyPolicies_of_laterKey {p : Policy} {settings : List (String × String)} {c c' : Config}
    (h : applyPolicies c settings = (c', .ok ())) (hp : c.LaterKey p) :
    c'.policies.last? p.names = c.policies.last? p.names := by
  induction settings generalizing c with
  | nil => cases h; rfl
  | cons x rest ih =>
    obtain ⟨q, s, -, -, h⟩ := applyPolicies_cons_ok h
    rw [ih h (Config.laterKey_setPolicy.mpr hp), Config.last?_setPolicy_of_laterKey hp]

theorem last?_applyPolicies_of_not_laterKey {p : Policy} {settings : List (String × String)} {c c' : Config}
    (h : applyPolicies c settings = (c', .ok ())) (hp : ¬ c.LaterKey p) :
    c'.policies.last? p.names =
      ((statusesFor p settings).getLast?.map fun s => (p.name, s)).or (c.policies.last? p.names) := by
  induction settings generalizing c with
  | nil => cases h; rfl
  | cons x rest ih =>
    obtain ⟨q, s, hq, hs, h⟩ := applyPolicies_cons_ok h
    rw [ih h (mt Config.laterKey_setPolicy.mp hp), statusesFor_cons hq hs]
    by_cases hqp : q = p
    · subst hqp
      rw [Config.last?_setPolicy_of_not_laterKey hp, if_pos rfl, List.getLast?_cons]
      cases (statusesFor q rest).getLast? <;> rfl
    · rw [Config.last?_setPolicy_of_ne hqp, if_neg hqp]

theorem foldl_addExportFile_eq (files : List ExportFile) (c : Config) :
    files.foldl Config.addExportFile c = { c with exportFiles := files.foldl Config.addTo c.exportFiles } := by
  induction files generalizing c with
  | nil => rfl
  | cons e files ih => rw [List.foldl_cons, ih, List.foldl_cons]; rfl

theorem exists_applyPolicies_of_override {cl : CommandLine} {dir : Path} {c c' : Config}
    (h : cl.override dir c = (c', .ok ())) :
    ∃ c₀ : Config, c₀.policies = c.policies ∧ applyPolicies c₀ cl.policySettings = (c', .ok ()) := by
  refine ⟨_, ?_, h⟩
  rw [foldl_addExportFile_eq]

end CommandLine

/-! ## What is reported after a policy is set -/

namespace Config

theorem readable_of_policies_eq {c c' : Config} (h : c'.policies = c.policies) (hc : c.Readable) : c'.Readable := by
  rw [readable_iff, h]; exact readable_iff.mp hc

theorem laterKey_of_policies_eq {c c' : Config} (h : c'.policies = c.policies) {p : Policy} :
    c'.LaterKey p ↔ c.LaterKey p := by
  rw [LaterKey, LaterKey, h]

theorem reports_iff_of_last? {c c' : Config} (hc : c.Readable) (hc' : c'.Readable) {p : Policy} {s : PolicyStatus}
    (hlater : c.LaterKey p → c'.policies.last? p.names = c.policies.last? p.names)
    (hnone : ¬ c.LaterKey p → c'.policies.last? p.names = some (p.name, s)) :
    c'.Reports p s ↔ (c.LaterKey p → c.Reports p s) := by
  rw [reports_iff_last? hc', reports_iff_last? hc]
  by_cases h : c.LaterKey p
  · rw [hlater h]; simp [h]
  · rw [hnone h]; simp [h]

/-- **Setting a policy.** A policy that is set, by a caller or by the last setting of a command line, is
reported at its new status exactly if no later key names it or it was reported at that status before. -/
theorem reports_set_iff (c : Config) (p : Policy) (s : PolicyStatus) (h : c.Readable) :
    ((c.setPolicy p s).Reports p s ↔ (c.LaterKey p → c.Reports p s)) ∧
      ∀ (cl : CommandLine) (sourceDir : Path) (c' : Config), cl.override sourceDir c = (c', .ok ()) →
        (CommandLine.statusesFor p cl.policySettings).getLast? = some s →
          (c'.Reports p s ↔ (c.LaterKey p → c.Reports p s)) := by
  constructor
  · exact reports_iff_of_last? h (readable_setPolicy h p s)
      (fun hl => last?_setPolicy_of_laterKey hl p s) fun hl => last?_setPolicy_of_not_laterKey hl s
  · intro cl sourceDir c' hover hlast
    obtain ⟨c₀, hpol, happly⟩ := CommandLine.exists_applyPolicies_of_override hover
    have hread : c'.Readable := CommandLine.readable_applyPolicies happly (readable_of_policies_eq hpol h)
    refine reports_iff_of_last? h hread (fun hl => ?_) fun hl => ?_
    · rw [CommandLine.last?_applyPolicies_of_laterKey happly ((laterKey_of_policies_eq hpol).mpr hl), hpol]
    · rw [CommandLine.last?_applyPolicies_of_not_laterKey happly (mt (laterKey_of_policies_eq hpol).mp hl), hlast]
      rfl

theorem reports_set_over_earlier_key :
    let c : Config := { policies := Dictionary.empty.insert " cmp0024" .old }
    let cl : CommandLine := { policies := ["CMP0024=NEW"] }
    c.Readable ∧ (c.setPolicy .cmp0024 .new).Reports .cmp0024 .new ∧
      (cl.override ⟨"/"⟩ c).2 = .ok () ∧ (cl.override ⟨"/"⟩ c).1.Reports .cmp0024 .new := by
  intro c cl
  have hread : c.Readable := ⟨_, rfl⟩
  have hover : (cl.override ⟨"/"⟩ c).2 = .ok () := by decide
  have hkey : c.LaterKey .cmp0024 → c.Reports .cmp0024 .new := by
    -- a blank before the name makes an earlier key
    rintro ⟨k, hk, -, hlt⟩
    obtain rfl : k = " cmp0024" := List.mem_singleton.mp hk
    exact absurd hlt (by decide)
  obtain ⟨hset, hcl⟩ := reports_set_iff c .cmp0024 .new hread
  exact ⟨hread, hset.mpr hkey, hover, (hcl cl ⟨"/"⟩ _ (Prod.ext rfl hover) (by decide)).mpr hkey⟩

/-- The name in small letters is a later key, and a setting under the name is lost. -/
theorem set_lost_under_later_key :
    let c : Config := { policies := Dictionary.empty.insert "cmp0024" .old }
    let cl : CommandLine := { policies := ["CMP0024=NEW"] }
    c.Readable ∧ ¬ (c.setPolicy .cmp0024 .new).Reports .cmp0024 .new ∧
      (cl.override ⟨"/"⟩ c).2 = .ok () ∧ (CommandLine.statusesFor .cmp0024 cl.policySettings).getLast? = some .new ∧
      ¬ (cl.override ⟨"/"⟩ c).1.Reports .cmp0024 .new := by
  intro c cl
  have hset : (c.setPolicy .cmp0024 .new).policySettings = .ok _ := rfl
  have hover : (cl.override ⟨"/"⟩ c).1.policySettings = .ok _ := rfl
  refine ⟨⟨_, rfl⟩, ?_, by decide, by decide, ?_⟩
  · rw [reports_iff_status hset]; decide
  · rw [reports_iff_status hover]; decide

/-! ## What is reported by a layered configuration -/

theorem readable_layeredOver {c b : Config} (hc : c.Readable) (hb : b.Readable) : (c.layeredOver b).Readable := by
  refine readable_iff.mpr fun k hk => ?_
  rcases Dictionary.mem_keys_layeredOver.mp hk with hk | hk
  · exact readable_iff.mp hc k hk
  · exact readable_iff.mp hb k hk

theorem status?_layeredOver {c b : Config} {mc mb m : PolicySettings} (hc : c.policySettings = .ok mc)
    (hb : b.policySettings = .ok mb) (hm : (c.layeredOver b).policySettings = .ok m) (p : Policy) :
    (Dictionary.KeyAfter p.names b.policies c.policies → m.status? p = mb.status? p) ∧
      (¬ Dictionary.KeyAfter p.names b.policies c.policies →
        m.status? p = mc.status? p ∧ (mc.status? p = none → mb.status? p = none)) := by
  rw [PolicySettings.status?_ofNamed hm, PolicySettings.status?_ofNamed hc, PolicySettings.status?_ofNamed hb]
  constructor
  · intro h
    rw [layeredOver, Dictionary.last?_layeredOver_of_keyAfter h]
  · intro h
    rw [layeredOver, Dictionary.last?_layeredOver_of_not_keyAfter h]
    refine ⟨rfl, fun hnone => ?_⟩
    rw [Dictionary.last?_eq_none_of_not_keyAfter h (Option.map_eq_none_iff.mp hnone)]
    rfl

/-- **A policy in a layered configuration.** The upper layer decides on a policy that it sets, and the base
on any other, exactly if the base has no key for the policy after all of the upper layer's, or the two agree. -/
theorem status_layeredOver_iff (c b : Config) (mc mb : PolicySettings) (hc : c.policySettings = .ok mc)
    (hb : b.policySettings = .ok mb) (p : Policy) :
    ∃ m, (c.layeredOver b).policySettings = .ok m ∧
      ((m.status p = if mc.isSet p = true then mc.status p else mb.status p) ↔
        (Dictionary.KeyAfter p.names b.policies c.policies → mc.isSet p = true → mc.status p = mb.status p)) := by
  obtain ⟨m, hm⟩ := readable_layeredOver ⟨mc, hc⟩ ⟨mb, hb⟩
  refine ⟨m, hm, ?_⟩
  obtain ⟨hafter, hno⟩ := status?_layeredOver hc hb hm p
  by_cases h : Dictionary.KeyAfter p.names b.policies c.policies
  · have hstatus : m.status p = mb.status p := by rw [PolicySettings.status, hafter h]; rfl
    rw [hstatus]
    by_cases hset : mc.isSet p = true <;> simp [h, hset, eq_comm]
  · have hstatus : m.status p = mc.status p := by rw [PolicySettings.status, (hno h).1]; rfl
    rw [hstatus]
    by_cases hset : mc.isSet p = true
    · simp [h, hset]
    · -- neither layer has a key for the policy
      have hnone : mc.status? p = none := by simpa [PolicySettings.isSet] using hset
      simp [h, hset, PolicySettings.status, hnone, (hno h).2 hnone]

theorem status_layeredOver_earlier_key :
    let c : Config := { policies := Dictionary.empty.insert "CMP0024" .new }
    let b : Config := { policies := Dictionary.empty.insert " cmp0024" .old }
    ∃ m, (c.layeredOver b).policySettings = .ok m ∧ m.status .cmp0024 = .new := by
  intro c b
  obtain ⟨m, hm, hiff⟩ := status_layeredOver_iff c b _ _ rfl rfl .cmp0024
  refine ⟨m, hm, hiff.mpr ?_⟩
  rintro ⟨k, hk, -, hlt⟩
  obtain rfl : k = " cmp0024" := List.mem_singleton.mp hk
  exact absurd (hlt "CMP0024" (List.mem_singleton.mpr rfl) (by decide)) (by decide)

theorem base_decides_by_later_key :
    let c : Config := { policies := Dictionary.empty.insert "CMP0024" .new }
    let b : Config := { policies := Dictionary.empty.insert "cmp0024" .old }
    (∃ mc, c.policySettings = .ok mc ∧ mc.isSet .cmp0024 = true ∧ mc.status .cmp0024 = .new) ∧
      (∃ mb, b.policySettings = .ok mb ∧ mb.status .cmp0024 = .old) ∧
      ∃ m, (c.layeredOver b).policySettings = .ok m ∧ m.status .cmp0024 = .old :=
  ⟨⟨_, rfl, by decide, by decide⟩, ⟨_, rfl, by decide⟩, ⟨_, rfl, by decide⟩⟩

end Config

end ScriptInclude
