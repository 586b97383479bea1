import ScriptInclude.Proofs.PathNames

/-!
# Collapsing twice

A collapsed path is flat, so to collapse it again changes it only if it is joined onto a base, and that
is so unless it is full. A drive or a leading backslash makes a path full, but is a name like any other
to `..`; what is left when it has been taken away is a relative path.
-/

namespace ScriptInclude.Path

/-! ## Absolute paths -/

theorem laterComponent?_ne_root (part : List Char) : laterComponent? part ≠ some .root := by
  unfold laterComponent?
  split
  · simp
  · split <;> simp

theorem firstComponent?_ne_root (part : List Char) : firstComponent? part ≠ some .root := by
  unfold firstComponent?
  split
  · simp
  · exact laterComponent?_ne_root part

theorem root_mem_components {p : Path} : Component.root ∈ p.components ↔ p.isAbsolute = true := by
  unfold components
  cases hp : p.parts with
  | nil => exact absurd hp (parts_ne_nil p)
  | cons first rest =>
    by_cases h : p.isAbsolute = true
    · simp [h]
    · simp [h, firstComponent?_ne_root, laterComponent?_ne_root]

theorem not_same_of_isAbsolute {p q : Path} (hp : p.isAbsolute = true) (hq : q.isAbsolute = false) : ¬ p.Same q := by
  intro hsame
  have hroot : Component.root ∈ q.components := hsame ▸ root_mem_components.mpr hp
  rw [root_mem_components, hq] at hroot
  cases hroot

theorem isAbsolute_eq_of_same {p q : Path} (h : p.Same q) : p.isAbsolute = q.isAbsolute := by
  rw [Bool.eq_iff_iff, ← root_mem_components, ← root_mem_components, h]

theorem eq_of_same {p q : Path} (hp : p.flatten = p) (hq : q.flatten = q) (h : p.Same q) : p = q := by
  rw [← hp, ← hq, flatten, flatten, isAbsolute_eq_of_same h, h]

theorem isAbsolute_join {base : Path} (h : base.isAbsolute = true) (p : Path) :
    (base.join p).isAbsolute = true := by
  unfold join
  split
  · next hp => exact hp
  · have hhead : base.text.toList.head? = some '/' := by simpa [isAbsolute, chars] using h
    split <;> simp [isAbsolute, chars, String.toList_append, hhead]

/-! ## Full paths -/

theorem isFull_of_isAbsolute {p : Path} (h : p.isAbsolute = true) : p.isFull = true := by
  unfold isAbsolute at h
  unfold isFull
  cases hp : p.chars with
  | nil => rw [hp] at h; cases h
  | cons c rest =>
    have hc : c = '/' := by simpa [hp] using h
    simp [isSeparator, hc]

theorem flatten_collapse (p base : Path) : (p.collapse base).flatten = p.collapse base :=
  flatten_flatten (p.rebase base)

theorem collapse_of_isFull {p : Path} (h : p.isFull = true) (base : Path) : p.collapse base = p.flatten := by
  rw [collapse, rebase, if_pos h]

theorem collapse_of_not_full {p : Path} (h : p.isFull = false) (base : Path) :
    p.collapse base = (base.join p).flatten := by
  rw [collapse, rebase, if_neg (by simp [h])]

theorem isAbsolute_of_not_full {p : Path} (h : p.isFull = false) : p.isAbsolute = false := by
  rw [← Bool.not_eq_true] at h ⊢
  exact fun habs => h (isFull_of_isAbsolute habs)

theorem isAbsolute_collapse {p base : Path} (hbase : base.isAbsolute = true)
    (h : p.isFull = true → p.isAbsolute = true) : (p.collapse base).isAbsolute = true := by
  rw [collapse, isAbsolute_flatten]
  by_cases hfull : p.isFull = true
  · rw [rebase, if_pos hfull]
    exact h hfull
  · rw [rebase, if_neg hfull]
    exact isAbsolute_join hbase p

/-! ## The second time -/

/-- **Collapsing is stable where the result is full.** It is so for every path that is not full, and for every
path that begins with a slash. Anywhere else the second base shows. -/
theorem collapse_collapse (p base base' : Path) (hbase : base.isAbsolute = true) (hbase' : base'.isAbsolute = true) :
    ((p.isFull = true → p.isAbsolute = true) → (p.collapse base).isFull = true) ∧
      ((p.collapse base).isFull = true → (p.collapse base).collapse base' = p.collapse base) ∧
      ((p.collapse base).isFull = false → ¬ ((p.collapse base).collapse base').Same (p.collapse base)) := by
  refine ⟨fun h => isFull_of_isAbsolute (isAbsolute_collapse hbase h), fun h => ?_, fun h => ?_⟩
  · rw [collapse_of_isFull h base', collapse, flatten_flatten]
  · have hfirst : (p.collapse base).isAbsolute = false := by
      rw [← Bool.not_eq_true]
      intro habs
      rw [isFull_of_isAbsolute habs] at h
      cases h
    -- what is not full is joined onto the second base
    have hsecond : ((p.collapse base).collapse base').isAbsolute = true :=
      isAbsolute_collapse hbase' fun hfull => absurd (h.symm.trans hfull) Bool.false_ne_true
    exact not_same_of_isAbsolute hsecond hfirst

theorem collapse_collapse_relative :
    let p : Path := ⟨"sub/../../x.cmake"⟩
    let base : Path := ⟨"/project/src"⟩
    let base' : Path := ⟨"/elsewhere"⟩
    base.isAbsolute = true ∧ base'.isAbsolute = true ∧ p.collapse base = ⟨"/project/x.cmake"⟩ ∧
      (p.collapse base).collapse base' = p.collapse base := by
  intro p base base'
  have hbase : base.isAbsolute = true := by decide
  have hbase' : base'.isAbsolute = true := by decide
  obtain ⟨hfull, hstable, -⟩ := collapse_collapse p base base' hbase hbase'
  exact ⟨hbase, hbase', by decide, hstable (hfull fun h => absurd h (by decide))⟩

/-- A drive is taken away by `..`, and what is left is taken from the base. -/
theorem collapse_drive_twice :
    let p : Path := ⟨"C:/../x.cmake"⟩
    let base : Path := ⟨"/project/src"⟩
    base.isAbsolute = true ∧ p.isFull = true ∧ p.collapse base = ⟨"x.cmake"⟩ ∧
      ¬ ((p.collapse base).collapse base).Same (p.collapse base) := by
  decide

end ScriptInclude.Path
