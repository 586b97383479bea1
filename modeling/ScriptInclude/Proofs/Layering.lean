import ScriptInclude.Config.Basic
import ScriptInclude.Proofs.Dictionary

/-!
# Layers

What is laid over a base keeps all of its own, doubles included, and takes from the base what it does not have
yet. Paths count as had by what they mean and not by their text. A base that has nothing new leaves the upper
layer as it is, and this alone settles what happens when layers meet twice.
-/

namespace ScriptInclude

/-! ## Lists without doubles -/

section Distinct

variable {α : Type} {key : α → Path} {test : α → Bool} {own base : List α}

/-- Adds `x` unless something with its path is there. -/
def addDistinct (key : α → Path) (xs : List α) (x : α) : List α :=
  if xs.any fun y => decide ((key y).Same (key x)) then xs else xs ++ [x]

theorem addPath_eq : Config.addPath = addDistinct id := rfl

theorem addTo_eq : Config.addTo = addDistinct ExportFile.path := rfl

theorem addDistinct_of_same {x y : α} (hy : y ∈ own) (hsame : (key y).Same (key x)) : addDistinct key own x = own :=
  if_pos (List.any_eq_true.mpr ⟨y, hy, decide_eq_true hsame⟩)

theorem addDistinct_of_new {x : α} (h : ∀ y ∈ own, ¬ (key y).Same (key x)) : addDistinct key own x = own ++ [x] := by
  apply if_neg
  intro hany
  obtain ⟨y, hy, hsame⟩ := List.any_eq_true.mp hany
  exact h y hy (of_decide_eq_true hsame)

theorem same_or_new (key : α → Path) (own : List α) (x : α) :
    (∃ y ∈ own, (key y).Same (key x)) ∨ ∀ y ∈ own, ¬ (key y).Same (key x) := by
  by_cases h : ∃ y ∈ own, (key y).Same (key x)
  · exact Or.inl h
  · exact Or.inr fun y hy hsame => h ⟨y, hy, hsame⟩

theorem mem_of_mem_foldl_addDistinct {x : α} (h : x ∈ base.foldl (addDistinct key) own) : x ∈ own ∨ x ∈ base := by
  induction base generalizing own with
  | nil => exact Or.inl h
  | cons y base ih =>
    rcases ih h with h | h
    · unfold addDistinct at h
      split at h
      · exact Or.inl h
      · rcases List.mem_append.mp h with h | h
        · exact Or.inl h
        · exact Or.inr (by simp [List.mem_singleton.mp h])
    · exact Or.inr (List.mem_cons_of_mem y h)

theorem mem_foldl_addDistinct {x : α} (h : x ∈ own) : x ∈ base.foldl (addDistinct key) own := by
  induction base generalizing own with
  | nil => exact h
  | cons y base ih =>
    apply ih
    unfold addDistinct
    split
    · exact h
    · exact List.mem_append_left [y] h

/-- A test that paths settle has the first of all pass it, whether doubles are left out or not. -/
theorem find?_foldl_addDistinct
    (htest : ∀ x ∈ own ++ base, ∀ y ∈ own ++ base, (key x).Same (key y) → test x = test y) :
    (base.foldl (addDistinct key) own).find? test = (own ++ base).find? test := by
  induction base generalizing own with
  | nil => rw [List.foldl_nil, List.append_nil]
  | cons x base ih =>
    rw [List.foldl_cons]
    rcases same_or_new key own x with ⟨y, hy, hsame⟩ | hnew
    · have hrest : ∀ y ∈ own ++ base, y ∈ own ++ x :: base := by
        intro y hy
        rcases List.mem_append.mp hy with hy | hy
        · exact List.mem_append_left _ hy
        · exact List.mem_append_right _ (List.mem_cons_of_mem x hy)
      rw [addDistinct_of_same hy hsame, ih fun y hy z hz => htest y (hrest y hy) z (hrest z hz)]
      have hxy : test y = test x :=
        htest y (List.mem_append_left _ hy) x (List.mem_append_right _ List.mem_cons_self) hsame
      rw [List.find?_append, List.find?_append, List.find?_cons]
      cases hx : test x with
      | false => rfl
      | true =>
        -- what stands before it passes as well
        have hfound : (own.find? test).isSome = true := List.find?_isSome.mpr ⟨y, hy, hxy.trans hx⟩
        obtain ⟨z, hz⟩ := Option.isSome_iff_exists.mp hfound
        rw [hz]
        rfl
    · have hassoc : own ++ [x] ++ base = own ++ x :: base := by simp
      rw [addDistinct_of_new hnew, ih (by rwa [hassoc]), hassoc]

/-- After the base has been added, nothing of it is missing. -/
theorem exists_same_of_mem (key : α → Path) (own : List α) {x : α} (h : x ∈ base) :
    ∃ y ∈ base.foldl (addDistinct key) own, (key y).Same (key x) := by
  induction base generalizing own with
  | nil => cases h
  | cons z base ih =>
    rcases List.mem_cons.mp h with rfl | h
    · rw [List.foldl_cons]
      rcases same_or_new key own x with ⟨y, hy, hsame⟩ | hnew
      · rw [addDistinct_of_same hy hsame]
        exact ⟨y, mem_foldl_addDistinct hy, hsame⟩
      · rw [addDistinct_of_new hnew]
        exact ⟨x, mem_foldl_addDistinct (by simp), Path.Same.rfl⟩
    · exact ih _ h

/-- A base adds nothing exactly if nothing of it is missing. -/
theorem foldl_addDistinct_eq_self_iff :
    base.foldl (addDistinct key) own = own ↔ ∀ x ∈ base, ∃ y ∈ own, (key y).Same (key x) := by
  constructor
  · intro h x hx
    have hcovered := exists_same_of_mem key own hx
    rwa [h] at hcovered
  · intro h
    induction base with
    | nil => rfl
    | cons x base ih =>
      obtain ⟨⟨y, hy, hsame⟩, hrest⟩ := List.forall_mem_cons.mp h
      rw [List.foldl_cons, addDistinct_of_same hy hsame, ih hrest]

/-- Adding a list to which another has been added is adding the one and then the other. -/
theorem foldl_addDistinct_assoc (key : α → Path) (own mid base : List α) :
    (base.foldl (addDistinct key) mid).foldl (addDistinct key) own =
      base.foldl (addDistinct key) (mid.foldl (addDistinct key) own) := by
  induction base generalizing mid with
  | nil => rfl
  | cons x base ih =>
    rw [List.foldl_cons, ih, List.foldl_cons]
    rcases same_or_new key mid x with ⟨y, hy, hsame⟩ | hnew
    · -- what the middle has of it, the upper list has by then
      obtain ⟨z, hz, hzy⟩ := exists_same_of_mem key own hy
      rw [addDistinct_of_same hy hsame, addDistinct_of_same hz (hzy.trans hsame)]
    · rw [addDistinct_of_new hnew, List.foldl_append, List.foldl_cons, List.foldl_nil]

end Distinct

/-! ## Dictionaries -/

namespace Dictionary

variable {α : Type}

theorem layeredOver_assoc (d e f : Dictionary α) :
    d.layeredOver (e.layeredOver f) = (d.layeredOver e).layeredOver f := by
  apply eq_of_get?_eq
  intro k
  simp only [get?_layeredOver, Option.or_assoc]

theorem layeredOver_eq_self_iff (d base : Dictionary α) :
    d.layeredOver base = d ↔ ∀ k ∈ base.keys, k ∈ d.keys := by
  constructor
  · intro h k hk
    have hlayered : k ∈ (d.layeredOver base).keys := mem_keys_layeredOver.mpr (Or.inr hk)
    rwa [h] at hlayered
  · intro h
    apply eq_of_get?_eq
    intro k
    rw [get?_layeredOver]
    cases hd : d.get? k with
    | some v => rfl
    | none =>
      cases hbase : base.get? k with
      | none => rfl
      | some v =>
        obtain ⟨v', hv'⟩ := mem_keys.mp (h k (mem_keys.mpr ⟨v, hbase⟩))
        rw [hd] at hv'
        cases hv'

end Dictionary

/-! ## Configurations -/

namespace Config

/-- Nothing that `b` says is new to `c`. -/
structure Covers (c b : Config) : Prop where
  modulePath : ∀ p ∈ b.modulePath, ∃ q ∈ c.modulePath, q.Same p
  modulesRoot : c.modulesRoot = none → b.modulesRoot = none
  policies : ∀ k ∈ b.policies.keys, k ∈ c.policies.keys
  exportFiles : ∀ e ∈ b.exportFiles, ∃ f ∈ c.exportFiles, f.path.Same e.path

theorem layeredOver_eq_self_iff (c b : Config) : c.layeredOver b = c ↔ c.Covers b := by
  have hpath : b.modulePath.foldl addPath c.modulePath = c.modulePath ↔
      ∀ p ∈ b.modulePath, ∃ q ∈ c.modulePath, q.Same p := foldl_addDistinct_eq_self_iff
  have hfiles : b.exportFiles.foldl addTo c.exportFiles = c.exportFiles ↔
      ∀ e ∈ b.exportFiles, ∃ f ∈ c.exportFiles, f.path.Same e.path := foldl_addDistinct_eq_self_iff
  have hroot : c.modulesRoot.or b.modulesRoot = c.modulesRoot ↔ (c.modulesRoot = none → b.modulesRoot = none) := by
    cases c.modulesRoot <;> simp
  have hpolicies := Dictionary.layeredOver_eq_self_iff c.policies b.policies
  constructor
  · intro h
    have hfield : ∀ {β : Type} (field : Config → β), field (c.layeredOver b) = field c := fun field => congrArg field h
    exact ⟨hpath.mp (hfield modulePath), hroot.mp (hfield modulesRoot), hpolicies.mp (hfield policies),
      hfiles.mp (hfield exportFiles)⟩
  · intro h
    rw [layeredOver, hpath.mpr h.modulePath, hroot.mpr h.modulesRoot, hpolicies.mpr h.policies,
      hfiles.mpr h.exportFiles]

theorem covers_self (c : Config) : c.Covers c where
  modulePath p hp := ⟨p, hp, Path.Same.rfl⟩
  modulesRoot h := h
  policies _ hk := hk
  exportFiles e he := ⟨e, he, Path.Same.rfl⟩

theorem covers_layeredOver (c b : Config) : (c.layeredOver b).Covers b where
  modulePath _ hp := exists_same_of_mem id c.modulePath hp
  modulesRoot h := (Option.or_eq_none_iff.mp h).2
  policies _ hk := Dictionary.mem_keys_layeredOver.mpr (Or.inr hk)
  exportFiles _ he := exists_same_of_mem ExportFile.path c.exportFiles he

theorem covers_default (c : Config) : c.Covers {} where
  modulePath := by simp
  modulesRoot _ := rfl
  policies := by simp [Dictionary.keys, Dictionary.empty]
  exportFiles := by simp

theorem layeredOver_default (c : Config) : c.layeredOver {} = c := (layeredOver_eq_self_iff c {}).mpr (covers_default c)

theorem layeredOver_twice (c b : Config) : (c.layeredOver b).layeredOver b = c.layeredOver b :=
  (layeredOver_eq_self_iff _ b).mpr (covers_layeredOver c b)

theorem layeredOver_assoc (c b a : Config) : c.layeredOver (b.layeredOver a) = (c.layeredOver b).layeredOver a := by
  have hpath := foldl_addDistinct_assoc id c.modulePath b.modulePath a.modulePath
  have hfiles := foldl_addDistinct_assoc ExportFile.path c.exportFiles b.exportFiles a.exportFiles
  rw [← addPath_eq] at hpath
  rw [← addTo_eq] at hfiles
  simp only [layeredOver, hpath, hfiles, Option.or_assoc, Dictionary.layeredOver_assoc]

/-- **The laws of layers.** How layers are bracketed does not matter, a configuration adds nothing to itself or to
what lies over it already, and the default adds nothing to any. All this holds to the letter, also for lists with
doubles and for paths that are spelled in several ways. In general a base adds nothing exactly if it has nothing
new. -/
theorem layeredOver_laws (a b c : Config) :
    c.layeredOver (b.layeredOver a) = (c.layeredOver b).layeredOver a ∧ c.layeredOver c = c ∧
      (c.layeredOver b).layeredOver b = c.layeredOver b ∧ c.layeredOver {} = c ∧
      (c.layeredOver b = c ↔ c.Covers b) :=
  ⟨layeredOver_assoc c b a, (layeredOver_eq_self_iff c c).mpr (covers_self c), layeredOver_twice c b,
    layeredOver_default c, layeredOver_eq_self_iff c b⟩

/-- Own doubles stay, and a base brings one of its own. -/
example :
    let c : Config := { modulePath := [⟨"/m"⟩, ⟨"/m/"⟩] }
    let b : Config := { modulePath := [⟨"/m/."⟩, ⟨"/n"⟩, ⟨"//n"⟩] }
    (c.layeredOver b).modulePath = [⟨"/m"⟩, ⟨"/m/"⟩, ⟨"/n"⟩] := by
  decide

end Config

end ScriptInclude
