import ScriptInclude.Proofs.Collapsing

/-!
# Joined paths

A path that is joined onto another goes on with its own parts where the other ends. Collapsing goes through the
components one by one and keeps nothing but a stack of names, so the first part of a path may be collapsed by
itself: what is left of it is all that the rest can see.
-/

namespace ScriptInclude.Path

variable {base p q : Path}

/-! ## Parts of what is joined -/

theorem text_join (hbase : base.isEmpty = false) (hq : q.isAbsolute = false) :
    (base.join q).text = base.text ++ if base.chars.getLast? = some '/' then q.text else "/" ++ q.text := by
  unfold join
  rw [hq, hbase]
  by_cases hlast : base.chars.getLast? = some '/'
  · simp [hlast]
  · simp [hlast, String.append_assoc]

/-- What stands before the parts of `q` are the parts of the base, less an empty one at their end. -/
theorem parts_join (hbase : base.isEmpty = false) (hq : q.isAbsolute = false) :
    ∃ before, before ≠ [] ∧ (base.join q).parts = before ++ q.parts ∧
      (base.parts = before ∨ base.parts = before ++ [[]]) := by
  have hchars : (base.join q).chars =
      base.chars ++ if base.chars.getLast? = some '/' then q.chars else '/' :: q.chars := by
    rw [chars, text_join hbase hq, String.toList_append]
    split <;> simp [chars, String.toList_append]
  rw [parts, hchars]
  by_cases hlast : base.chars.getLast? = some '/'
  · obtain ⟨cs, hcs⟩ := List.getLast?_eq_some_iff.mp hlast
    refine ⟨Text.pieces '/' cs, Text.pieces_ne_nil '/' cs, ?_, Or.inr ?_⟩
    · rw [if_pos hlast, hcs, List.append_assoc, List.singleton_append, Text.pieces_append_cons, parts]
    · rw [parts, hcs, Text.pieces_append_cons]
      rfl
  · refine ⟨base.parts, parts_ne_nil base, ?_, Or.inl rfl⟩
    rw [if_neg hlast, Text.pieces_append_cons, parts, parts]

theorem isAbsolute_join_of_relative (hbase : base.isEmpty = false) (hq : q.isAbsolute = false) :
    (base.join q).isAbsolute = base.isAbsolute := by
  unfold isAbsolute chars
  rw [text_join hbase hq, String.toList_append]
  unfold isEmpty chars at hbase
  cases hcs : base.text.toList with
  | nil => rw [hcs] at hbase; cases hbase
  | cons c cs => rfl

/-! ## Components of what is joined -/

/-- The components of the parts of a path; only the first of them counts by where it stands. -/
def componentsOf (absolute : Bool) : List (List Char) → List Component
  | [] => []
  | first :: rest =>
    (if absolute then [.root] else (firstComponent? first).toList) ++ rest.filterMap laterComponent?

theorem components_eq (p : Path) : p.components = componentsOf p.isAbsolute p.parts := by
  unfold components
  cases p.parts with
  | nil => rfl
  | cons first rest => cases p.isAbsolute <;> rfl

theorem componentsOf_append (absolute : Bool) {before : List (List Char)} (hne : before ≠ [])
    (more : List (List Char)) :
    componentsOf absolute (before ++ more) = componentsOf absolute before ++ more.filterMap laterComponent? := by
  obtain ⟨first, rest, rfl⟩ := List.exists_cons_of_ne_nil hne
  rw [List.cons_append, componentsOf, componentsOf, List.filterMap_append, List.append_assoc]

theorem components_join (hbase : base.isEmpty = false) (hq : q.isAbsolute = false) :
    (base.join q).components = base.components ++ q.parts.filterMap laterComponent? := by
  obtain ⟨before, hne, hjoin, hparts⟩ := parts_join hbase hq
  rw [components_eq, isAbsolute_join_of_relative hbase hq, hjoin, componentsOf_append _ hne, components_eq base]
  rcases hparts with hparts | hparts
  · rw [hparts]
  · -- an empty part at the end is no component
    rw [hparts, componentsOf_append _ hne]
    simp [laterComponent?]

/-- The text of `q` below that of `p`, with a slash between the two. -/
def slash (p q : Path) : Path := ⟨p.text ++ "/" ++ q.text⟩

theorem isAbsolute_slash (hp : p.isEmpty = false) (q : Path) : (p.slash q).isAbsolute = p.isAbsolute := by
  unfold isEmpty chars at hp
  unfold isAbsolute slash chars
  rw [String.toList_append, String.toList_append]
  cases hcs : p.text.toList with
  | nil => rw [hcs] at hp; cases hp
  | cons c cs => rfl

theorem components_slash (hp : p.isEmpty = false) (q : Path) :
    (p.slash q).components = p.components ++ q.parts.filterMap laterComponent? := by
  have hchars : (p.slash q).chars = p.chars ++ '/' :: q.chars := by
    simp [slash, chars, String.toList_append]
  have hparts : (p.slash q).parts = p.parts ++ q.parts := by
    rw [parts, hchars, Text.pieces_append_cons, parts, parts]
  rw [components_eq, isAbsolute_slash hp, hparts, componentsOf_append _ (parts_ne_nil p), ← components_eq]

/-! ## Collapsing in stages -/

/-- The names that are left when a path goes on from others. -/
def namesFrom (names : List String) (q : Path) : List String :=
  ((q.parts.filterMap laterComponent?).foldl settle names.reverse).reverse

theorem names_of_components_append {before : Path}
    (h : p.components = before.components ++ q.parts.filterMap laterComponent?) :
    p.names = namesFrom before.names q := by
  rw [names, h, List.foldl_append, namesFrom, names, List.reverse_reverse]

/-- A relative path may begin with `.`, which names nothing there either. -/
theorem names_of_relative (hq : q.isAbsolute = false) : q.names = namesFrom [] q := by
  rw [names, components_eq, hq, namesFrom]
  cases q.parts with
  | nil => rfl
  | cons first rest =>
    by_cases hfirst : first = ['.']
    · simp [componentsOf, firstComponent?, laterComponent?, hfirst, settle]
    · rw [componentsOf, firstComponent?, if_neg hfirst, List.filterMap_cons]
      cases laterComponent? first <;> rfl

theorem flatten_slash (hp : p.isEmpty = false) (q : Path) :
    (p.slash q).flatten = ofNames p.isAbsolute (namesFrom p.names q) := by
  rw [flatten_eq, isAbsolute_slash hp, names_of_components_append (components_slash hp q)]

theorem flatten_join (base : Path) (hq : q.isAbsolute = false) :
    (base.join q).flatten = ofNames base.isAbsolute (namesFrom base.names q) := by
  cases hbase : base.isEmpty with
  | false =>
    rw [flatten_eq, isAbsolute_join_of_relative hbase hq, names_of_components_append (components_join hbase hq)]
  | true =>
    have htext : base.text = "" := by simpa [isEmpty, chars] using hbase
    obtain rfl : base = ⟨""⟩ := congrArg Path.mk htext
    have hjoin : (Path.mk "").join q = q := by simp [join, hq, isEmpty, chars]
    rw [hjoin, flatten_eq, hq, names_of_relative hq]
    rfl

theorem rebase_slash (hfull : (p.slash q).isFull = p.isFull) (base : Path) :
    (p.slash q).rebase base = (p.rebase base).slash q := by
  unfold rebase
  rw [hfull]
  cases hp : p.isFull with
  | true => rfl
  | false =>
    have hslash := isAbsolute_of_not_full (hfull.trans hp)
    have hp' := isAbsolute_of_not_full hp
    simp only [join, hslash, hp', Bool.false_eq_true, if_false]
    split <;> simp [slash, String.append_assoc]

theorem isEmpty_rebase_of_slash (hfull : (p.slash q).isFull = p.isFull) (base : Path) :
    (p.rebase base).isEmpty = false := by
  -- below nothing there would be a leading slash, which is full
  have hp : p.isEmpty = false := by
    rw [← Bool.not_eq_true]
    intro hempty
    have htext : p.text = "" := by simpa [isEmpty, chars] using hempty
    have hslash : (p.slash q).isFull = true := isFull_of_isAbsolute (by simp [isAbsolute, slash, chars, htext])
    rw [hfull] at hslash
    simp [isFull, chars, htext] at hslash
  have htext : p.text ≠ "" := by simpa [isEmpty, chars] using hp
  unfold rebase join
  split
  · exact hp
  · split
    · exact hp
    · split <;> simp [isEmpty, chars, htext]

/-- **Collapsing in stages.** Where the slash between two texts does not make the whole full, the upper one may be
collapsed first, and the lower one is then taken from what is left of it. `..` takes away names of the upper text
and of the base alike, and is forgotten at the same place. -/
theorem collapse_slash (p q base : Path) (hq : q.isFull = false) (hfull : (p.slash q).isFull = p.isFull) :
    (p.slash q).collapse base = q.collapse (p.collapse base) := by
  have hrelative : q.isAbsolute = false := isAbsolute_of_not_full hq
  have hupper : p.collapse base = (p.rebase base).flatten := rfl
  calc (p.slash q).collapse base
    _ = ((p.rebase base).slash q).flatten := by rw [collapse, rebase_slash hfull]
    _ = ofNames (p.rebase base).isAbsolute (namesFrom (p.rebase base).names q) :=
        flatten_slash (isEmpty_rebase_of_slash hfull base) q
    _ = ((p.collapse base).join q).flatten := by
        rw [hupper, flatten_join _ hrelative, isAbsolute_flatten, names_flatten]
    _ = q.collapse (p.collapse base) := (collapse_of_not_full hq (p.collapse base)).symm

/-- The way back leads out of the upper text, out of a relative base, and once more. -/
theorem collapse_slash_beyond_base :
    let p : Path := ⟨"sub//./x"⟩
    let q : Path := ⟨"./../../../../../y/"⟩
    let base : Path := ⟨"rel/dir"⟩
    q.isFull = false ∧ (p.slash q).isFull = p.isFull ∧ p.collapse base = ⟨"rel/dir/sub/x"⟩ ∧
      q.collapse (p.collapse base) = ⟨"y"⟩ ∧ (p.slash q).collapse base = q.collapse (p.collapse base) := by
  intro p q base
  have hq : q.isFull = false := by decide
  have hfull : (p.slash q).isFull = p.isFull := by decide
  exact ⟨hq, hfull, by decide, by decide, collapse_slash p q base hq hfull⟩

/-- A drive is full only with the slash, so it is not taken from the base when it is collapsed as a whole. -/
example :
    let p : Path := ⟨"C:"⟩
    let q : Path := ⟨"y"⟩
    let base : Path := ⟨"/w"⟩
    (p.slash q).collapse base = ⟨"C:/y"⟩ ∧ q.collapse (p.collapse base) = ⟨"/w/C:/y"⟩ := by
  decide

end ScriptInclude.Path
