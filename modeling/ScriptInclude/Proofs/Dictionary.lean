import Mathlib.Data.String.Basic
import ScriptInclude.Dictionary

/-!
# Dictionaries as finite maps

A dictionary is known by the value it holds for each key. Insertion changes one key, and laying one
dictionary over another takes a key from the upper one wherever that holds it. The last entry that passes
a test on its key is the one with the greatest such key.
-/

namespace ScriptInclude.Dictionary

variable {α : Type}

/-! ## Looking up -/

theorem lookup_cons_eq (k : String) (e : String × α) (es : List (String × α)) :
    (e :: es).lookup k = if k = e.1 then some e.2 else es.lookup k := by
  obtain ⟨k', v⟩ := e
  by_cases h : k = k'
  · simp [h]
  · simp [List.lookup_cons, beq_false_of_ne h, h]

theorem lookup_place (k : String) (v : α) (k' : String) :
    ∀ es : List (String × α), (place k v es).lookup k' = if k' = k then some v else es.lookup k'
  | [] => by rw [place, lookup_cons_eq]
  | e :: es => by
    unfold place
    split
    · rw [lookup_cons_eq]
    · split
      · next hk =>
        rw [lookup_cons_eq, lookup_cons_eq, lookup_place k v k' es]
        by_cases h : k' = e.1
        · have hne : e.1 ≠ k := fun h' => String.lt_irrefl k (h' ▸ hk)
          simp [h, hne]
        · simp [h]
      · next hk hk' =>
        have hke : k = e.1 := eq_of_not_lt hk hk'
        rw [lookup_cons_eq, lookup_cons_eq, ← hke]
        by_cases h : k' = k <;> simp [h]

@[simp]
theorem get?_insert (d : Dictionary α) (k : String) (v : α) (k' : String) :
    (d.insert k v).get? k' = if k' = k then some v else d.get? k' :=
  lookup_place k v k' d.entries

theorem lookup_eq_some {k : String} {v : α} :
    ∀ {es : List (String × α)}, Increasing es → (es.lookup k = some v ↔ (k, v) ∈ es)
  | [], _ => by simp
  | e :: es, h => by
    obtain ⟨h₁, h₂⟩ := List.pairwise_cons.mp h
    rw [lookup_cons_eq, List.mem_cons, Prod.ext_iff]
    by_cases hk : k = e.1
    · have hnot : (e.1, v) ∉ es := fun hm => lt_irrefl e.1 (h₁ (e.1, v) hm)
      simp [hk, hnot, eq_comm]
    · simp [hk, lookup_eq_some h₂]

theorem mem_entries {d : Dictionary α} {k : String} {v : α} : (k, v) ∈ d.entries ↔ d.get? k = some v :=
  (lookup_eq_some d.increasing).symm

def keys (d : Dictionary α) : List String := d.entries.map Prod.fst

theorem mem_keys {d : Dictionary α} {k : String} : k ∈ d.keys ↔ ∃ v, d.get? k = some v := by
  simp [keys, mem_entries]

theorem mem_keys_insert {d : Dictionary α} {k k' : String} {v : α} :
    k' ∈ (d.insert k v).keys ↔ k' = k ∨ k' ∈ d.keys := by
  by_cases h : k' = k <;> simp [mem_keys, h]

theorem eq_of_get?_eq {d e : Dictionary α} (h : ∀ k, d.get? k = e.get? k) : d = e := by
  have hmem : ∀ x, x ∈ d.entries ↔ x ∈ e.entries := by
    rintro ⟨k, v⟩
    rw [mem_entries, mem_entries, h k]
  have hnodup : ∀ d : Dictionary α, d.entries.Nodup := by
    intro d
    refine List.Pairwise.imp ?_ d.increasing
    rintro a _ hlt rfl
    exact lt_irrefl _ hlt
  have hperm : d.entries.Perm e.entries := (List.perm_ext_iff_of_nodup (hnodup d) (hnodup e)).mpr hmem
  exact ext (hperm.eq_of_pairwise (fun a b _ _ hab hba => absurd hab (not_lt_of_gt hba)) d.increasing e.increasing)

/-! ## Entries that do not replace -/

theorem get?_insertNew (d : Dictionary α) (k : String) (v : α) (k' : String) :
    (d.insertNew k v).get? k' = (d.get? k').or (if k' = k then some v else none) := by
  unfold insertNew
  by_cases hk : k' = k
  · subst hk
    cases h : d.get? k' <;> simp [h]
  · split <;> simp [hk]

theorem get?_foldl_insertNew (k : String) (es : List (String × α)) (d : Dictionary α) :
    (es.foldl (fun d e => d.insertNew e.1 e.2) d).get? k = (d.get? k).or (es.lookup k) := by
  induction es generalizing d with
  | nil => simp
  | cons e es ih =>
    rw [List.foldl_cons, ih, get?_insertNew, lookup_cons_eq, Option.or_assoc]
    by_cases hk : k = e.1 <;> simp [hk]

/-! ## Layers -/

theorem get?_foldl_insert (k : String) :
    ∀ {es : List (String × α)} (m : Dictionary α), Increasing es →
      (es.foldl (fun m e => m.insert e.1 e.2) m).get? k = (es.lookup k).or (m.get? k)
  | [], m, _ => by simp
  | e :: es, m, h => by
    obtain ⟨h₁, h₂⟩ := List.pairwise_cons.mp h
    rw [List.foldl_cons, get?_foldl_insert k (m.insert e.1 e.2) h₂, get?_insert, lookup_cons_eq]
    by_cases hk : k = e.1
    · -- later entries have greater keys, so they leave the value of this one alone
      have hnone : es.lookup e.1 = none := by
        cases hl : es.lookup e.1 with
        | none => rfl
        | some v => exact absurd (h₁ _ ((lookup_eq_some h₂).mp hl)) (lt_irrefl e.1)
      simp [hk, hnone]
    · simp [hk]

theorem get?_layeredOver (d base : Dictionary α) (k : String) :
    (d.layeredOver base).get? k = (d.get? k).or (base.get? k) :=
  get?_foldl_insert k base d.increasing

theorem mem_keys_layeredOver {d base : Dictionary α} {k : String} :
    k ∈ (d.layeredOver base).keys ↔ k ∈ d.keys ∨ k ∈ base.keys := by
  simp only [mem_keys, get?_layeredOver]
  cases d.get? k <;> simp

/-! ## The last entry that passes a test -/

def last? (d : Dictionary α) (test : String → Bool) : Option (String × α) :=
  (d.entries.filter fun e => test e.1).getLast?

theorem le_of_getLast? {es : List (String × α)} (h : Increasing es) {x e : String × α}
    (hl : es.getLast? = some x) (he : e ∈ es) : e.1 ≤ x.1 := by
  obtain ⟨ys, rfl⟩ := List.getLast?_eq_some_iff.mp hl
  rcases List.mem_append.mp he with he | he
  · exact le_of_lt ((List.pairwise_append.mp h).2.2 e he x (by simp))
  · rw [List.mem_singleton.mp he]

theorem last?_eq_none {d : Dictionary α} {test : String → Bool} :
    d.last? test = none ↔ ∀ k ∈ d.keys, test k = false := by
  simp [last?, keys]

theorem last?_eq_some {d : Dictionary α} {test : String → Bool} {k : String} {v : α} :
    d.last? test = some (k, v) ↔ d.get? k = some v ∧ test k = true ∧ ∀ k' ∈ d.keys, test k' = true → k' ≤ k := by
  have hinc : Increasing (d.entries.filter fun e => test e.1) := List.Pairwise.filter _ d.increasing
  constructor
  · intro h
    obtain ⟨hm, ht⟩ := List.mem_filter.mp (List.mem_of_getLast? h)
    refine ⟨mem_entries.mp hm, ht, ?_⟩
    intro k' hk' ht'
    obtain ⟨v', hv'⟩ := mem_keys.mp hk'
    exact le_of_getLast? hinc h (List.mem_filter.mpr ⟨mem_entries.mpr hv', ht'⟩)
  · rintro ⟨hv, ht, hmax⟩
    have hm : (k, v) ∈ d.entries.filter fun e => test e.1 := List.mem_filter.mpr ⟨mem_entries.mpr hv, ht⟩
    cases hl : d.last? test with
    | none => exact absurd ht (by simp [last?_eq_none.mp hl k (mem_keys.mpr ⟨v, hv⟩)])
    | some x =>
      obtain ⟨hx, htx⟩ := List.mem_filter.mp (List.mem_of_getLast? hl)
      have hle : k ≤ x.1 := le_of_getLast? hinc hl hm
      have hge : x.1 ≤ k := hmax x.1 (List.mem_map.mpr ⟨x, hx, rfl⟩) htx
      obtain rfl : k = x.1 := le_antisymm hle hge
      have hxv : x.2 = v := Option.some.inj ((mem_entries.mp hx).symm.trans hv)
      rw [← hxv]

/-- Of the keys that pass the test, `base` has one that comes after all of `d`'s. -/
def KeyAfter (test : String → Bool) (base d : Dictionary α) : Prop :=
  ∃ k ∈ base.keys, test k = true ∧ ∀ k' ∈ d.keys, test k' = true → k' < k

theorem last?_layeredOver_of_keyAfter {test : String → Bool} {d base : Dictionary α}
    (h : KeyAfter test base d) : (d.layeredOver base).last? test = base.last? test := by
  obtain ⟨k, hk, ht, hlt⟩ := h
  cases hl : base.last? test with
  | none => simp [last?_eq_none.mp hl k hk] at ht
  | some x =>
    obtain ⟨hx, htx, hmax⟩ := last?_eq_some.mp hl
    have hkx : k ≤ x.1 := hmax k hk ht
    have hnone : d.get? x.1 = none := by
      cases hd : d.get? x.1 with
      | none => rfl
      | some v => exact absurd (hlt x.1 (mem_keys.mpr ⟨v, hd⟩) htx) (not_lt.mpr hkx)
    refine last?_eq_some.mpr ⟨by simp [get?_layeredOver, hnone, hx], htx, ?_⟩
    intro k' hk' ht'
    rcases mem_keys_layeredOver.mp hk' with hk' | hk'
    · exact le_of_lt (lt_of_lt_of_le (hlt k' hk' ht') hkx)
    · exact hmax k' hk' ht'

theorem last?_eq_none_of_not_keyAfter {test : String → Bool} {d base : Dictionary α}
    (h : ¬ KeyAfter test base d) (hd : d.last? test = none) : base.last? test = none := by
  refine last?_eq_none.mpr fun k hk => ?_
  by_contra ht
  exact h ⟨k, hk, by simpa using ht, fun k' hk' ht' => absurd ht' (by simp [last?_eq_none.mp hd k' hk'])⟩

theorem last?_layeredOver_of_not_keyAfter {test : String → Bool} {d base : Dictionary α}
    (h : ¬ KeyAfter test base d) : (d.layeredOver base).last? test = d.last? test := by
  cases hl : d.last? test with
  | none =>
    refine last?_eq_none.mpr fun k hk => ?_
    rcases mem_keys_layeredOver.mp hk with hk | hk
    · exact last?_eq_none.mp hl k hk
    · exact last?_eq_none.mp (last?_eq_none_of_not_keyAfter h hl) k hk
  | some x =>
    obtain ⟨hx, htx, hmax⟩ := last?_eq_some.mp hl
    refine last?_eq_some.mpr ⟨by simp [get?_layeredOver, hx], htx, ?_⟩
    intro k hk ht
    rcases mem_keys_layeredOver.mp hk with hk | hk
    · exact hmax k hk ht
    · -- a key of the base beyond this one would come after all of `d`'s
      by_contra hlt
      exact h ⟨k, hk, ht, fun k' hk' ht' => lt_of_le_of_lt (hmax k' hk' ht') (lt_of_not_ge hlt)⟩

/-! ## The last entry after an insertion -/

/-- An insertion lays a dictionary of one entry over the others. -/
theorem insert_eq_layeredOver (d : Dictionary α) (k : String) (v : α) :
    d.insert k v = (empty.insert k v).layeredOver d := rfl

theorem last?_single (k : String) (v : α) (test : String → Bool) :
    (empty.insert k v).last? test = if test k = true then some (k, v) else none := by
  by_cases h : test k = true <;> simp [last?, insert, empty, place, h]

theorem keyAfter_single {test : String → Bool} {d : Dictionary α} {k : String} {v : α} :
    KeyAfter test d (empty.insert k v) ↔ ∃ k' ∈ d.keys, test k' = true ∧ (test k = true → k < k') := by
  have hkeys : (empty.insert k v).keys = [k] := rfl
  simp only [KeyAfter, hkeys, List.mem_singleton, forall_eq]

theorem last?_insert_of_lt {test : String → Bool} {d : Dictionary α} {k : String} (v : α)
    (h : ∃ k' ∈ d.keys, test k' = true ∧ k < k') : (d.insert k v).last? test = d.last? test := by
  obtain ⟨k', hk', ht, hlt⟩ := h
  rw [insert_eq_layeredOver]
  exact last?_layeredOver_of_keyAfter (keyAfter_single.mpr ⟨k', hk', ht, fun _ => hlt⟩)

theorem last?_insert_of_not_lt {test : String → Bool} {d : Dictionary α} {k : String} (v : α) (htest : test k = true)
    (h : ¬ ∃ k' ∈ d.keys, test k' = true ∧ k < k') : (d.insert k v).last? test = some (k, v) := by
  have hno : ¬ KeyAfter test d (empty.insert k v) := by
    intro hafter
    obtain ⟨k', hk', ht, hlt⟩ := keyAfter_single.mp hafter
    exact h ⟨k', hk', ht, hlt htest⟩
  rw [insert_eq_layeredOver, last?_layeredOver_of_not_keyAfter hno, last?_single, if_pos htest]

theorem last?_insert_of_test_eq_false {test : String → Bool} {d : Dictionary α} {k : String} (v : α)
    (htest : test k = false) : (d.insert k v).last? test = d.last? test := by
  rw [insert_eq_layeredOver]
  by_cases h : KeyAfter test d (empty.insert k v)
  · exact last?_layeredOver_of_keyAfter h
  · have hsingle : (empty.insert k v).last? test = none := by rw [last?_single, htest]; rfl
    rw [last?_layeredOver_of_not_keyAfter h, hsingle, last?_eq_none_of_not_keyAfter h hsingle]

end ScriptInclude.Dictionary
