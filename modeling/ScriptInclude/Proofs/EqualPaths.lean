import ScriptInclude.Proofs.CollapsedWalk
import ScriptInclude.Proofs.JoinedPaths
import ScriptInclude.Proofs.Writing

/-!
# Equal paths lead to the same file

Paths that are equal component by component differ in parts that mean nothing. A walk passes these by as long as a
name comes after them; behind a name they ask for a directory. So what is found by one of two equal paths that end
in a name is found by the other, and a flat path finds every file that an equal path finds.
-/

namespace ScriptInclude

namespace FileTree

open ScriptInclude.Path (Component IsName ofNames)

variable {t : FileTree} {links : Nat} {here : Location} {p q : Path} {x : String} {xs : List String}

/-! ## Steps that lead anywhere -/

/-- The steps without the silent ones. -/
def spoken (xs : List String) : List String := xs.filter fun x => !isSilent x

theorem spoken_cons_silent (h : isSilent x = true) : spoken (x :: xs) = spoken xs :=
  List.filter_cons_of_neg (by simp [h])

theorem spoken_cons (h : ¬ isSilent x = true) : spoken (x :: xs) = x :: spoken xs :=
  List.filter_cons_of_pos (by simp [h])

theorem spoken_append (xs ys : List String) : spoken (xs ++ ys) = spoken xs ++ spoken ys := List.filter_append xs ys

theorem spoken_sublist (xs : List String) : (spoken xs).Sublist xs := List.filter_sublist

theorem enter_spoken (t : FileTree) (links : Nat) (here : Location) (xs : List String) :
    enter t links here (spoken xs) = enter t links here xs := by
  induction xs generalizing links here with
  | nil => rfl
  | cons x xs ih =>
    by_cases h : isSilent x = true
    · rw [spoken_cons_silent h, enter_silent h, ih]
    · -- a link puts its own steps before the rest, so one step is taken by itself
      rw [spoken_cons h, ← List.singleton_append, enter_append, ← List.singleton_append (l := xs), enter_append]
      simp only [ih]

theorem walk_spoken (t : FileTree) (follow : Bool) (links : Nat) (here : Location) (xs : List String)
    (hx : IsEntryName x) : walk t follow links here (spoken (xs ++ [x])) = walk t follow links here (xs ++ [x]) := by
  have hne : [x] ≠ [] := List.cons_ne_nil x []
  have hlast : spoken [x] = [x] := spoken_cons hx.not_silent
  rw [spoken_append, hlast, walk_append _ _ _ _ _ hne, walk_append _ _ _ _ _ hne, enter_spoken]

/-! ## Steps by components -/

/-- The step that a component takes. -/
def step? : Component → Option String
  | .name s => some s
  | .up => some ".."
  | .root | .here => none

@[simp] theorem step?_name (s : String) : step? (.name s) = some s := rfl

@[simp] theorem step?_up : step? .up = some ".." := rfl

@[simp] theorem step?_root : step? .root = none := rfl

@[simp] theorem step?_here : step? .here = none := rfl

theorem filterMap_step? (xs : List String) : (xs.filterMap component?).filterMap step? = spoken xs := by
  induction xs with
  | nil => rfl
  | cons x xs ih =>
    rcases step_cases x with h | rfl | h
    · rw [List.filterMap_cons_none (component?_silent h), ih, spoken_cons_silent h]
    · rw [List.filterMap_cons_some component?_up, List.filterMap_cons_some step?_up, ih, spoken_cons (by decide)]
    · rw [List.filterMap_cons_some (component?_entryName h), List.filterMap_cons_some (step?_name x), ih,
        spoken_cons h.not_silent]

/-- The first component of a path may be the root or `.`; both stay where they are. -/
theorem spoken_steps (p : Path) : spoken (steps p) = p.components.filterMap step? := by
  have hcomponent : (steps p).filterMap component? = p.parts.filterMap Path.laterComponent? := by
    simp [steps, List.filterMap_map, Function.comp_def, component?]
  rw [← filterMap_step?, hcomponent]
  cases habs : p.isAbsolute with
  | true =>
    obtain ⟨rest, hparts⟩ := parts_of_isAbsolute habs
    rw [Path.components, hparts]
    simp [habs, Path.laterComponent?, List.filterMap_cons]
  | false =>
    rw [Path.components]
    cases p.parts with
    | nil => rfl
    | cons first rest =>
      by_cases hfirst : first = ['.']
      · simp [habs, hfirst, Path.firstComponent?, Path.laterComponent?, List.filterMap_cons]
      · simp only [habs, Path.firstComponent?, if_neg hfirst, List.filterMap_cons]
        cases Path.laterComponent? first <;> simp

theorem spoken_eq_of_same (h : p.Same q) : spoken (steps p) = spoken (steps q) := by
  rw [spoken_steps, spoken_steps]
  exact congrArg _ h

/-! ## Where equal paths lead -/

def EndsInName (p : Path) : Prop := ∃ xs x, steps p = xs ++ [x] ∧ IsEntryName x

/-- Equal paths with a name at their ends lead to the same spot. -/
theorem locate_eq_of_same (h : p.Same q) (hp : usable p = .ok ()) (hq : usable q = .ok ()) (hpe : EndsInName p)
    (hqe : EndsInName q) (t : FileTree) (here : Location) : locate t here p = locate t here q := by
  obtain ⟨xs, x, hxs, hx⟩ := hpe
  obtain ⟨ys, y, hys, hy⟩ := hqe
  have hstart : start p here = start q here := by rw [start, start, Path.isAbsolute_eq_of_same h]
  rw [locate_eq, locate_eq, hp, hq, hstart, hxs, hys, ← walk_spoken _ _ _ _ _ hx, ← walk_spoken _ _ _ _ _ hy,
    ← hxs, ← hys, spoken_eq_of_same h]

theorem endsInName_of_locate {loc : Location} {b : ByteArray} (h : locate t here p = .ok (.present loc (.file b))) :
    EndsInName p := by
  rw [locate_eq, bind_eq_ok] at h
  obtain ⟨-, -, hw⟩ := h
  rcases List.eq_nil_or_concat (steps p) with hnil | ⟨xs, x, hsteps⟩
  · simp [hnil] at hw
  · rw [List.concat_eq_append] at hsteps
    rw [hsteps, walk_append_eq_ok (List.cons_ne_nil x [])] at hw
    obtain ⟨left, there, -, hx⟩ := hw
    exact ⟨xs, x, hsteps, isEntryName_of_walk_eq_file hx⟩

/-! ## Flat paths -/

theorem isEntryName_of_isName (h : IsName x) : IsEntryName x :=
  ⟨by simp [isSilent, h.ne_empty, h.ne_here], h.ne_up⟩

theorem steps_ofNames_of_ne_nil (rooted : Bool) {ns : List String} (h : ∀ s ∈ ns, IsName s) (hne : ns ≠ []) :
    steps (ofNames rooted ns) = (if rooted then [""] else []) ++ ns := by
  cases rooted with
  | true =>
    rw [steps_ofNames h, if_neg hne]
    rfl
  | false =>
    rw [steps, Path.parts, Path.chars_ofNames]
    simp [Path.pieces_names h hne, Function.comp_def]

theorem spoken_flatten (p : Path) : spoken (steps p.flatten) = p.names := by
  have hnames : (p.names.map Component.name).filterMap step? = p.names := by
    simp [List.filterMap_map, Function.comp_def]
  rw [spoken_steps, Path.components_flatten, List.filterMap_append, hnames]
  cases p.isAbsolute <;> rfl

theorem spoken_of_same_flatten (h : p.Same q.flatten) : spoken (steps p) = q.names := by
  rw [spoken_eq_of_same h, spoken_flatten]

theorem isEmpty_flatten (hne : q.names ≠ []) : q.flatten.isEmpty = false :=
  Path.isEmpty_ofNames q.isAbsolute Path.isName_of_mem_names hne

theorem endsInName_flatten (hne : q.names ≠ []) : EndsInName q.flatten := by
  obtain ⟨ns, n, hns⟩ := (List.eq_nil_or_concat q.names).resolve_left hne
  rw [List.concat_eq_append] at hns
  have hn : IsName n := Path.isName_of_mem_names (p := q) n (by simp [hns])
  refine ⟨(if q.isAbsolute then [""] else []) ++ ns, n, ?_, isEntryName_of_isName hn⟩
  rw [Path.flatten_eq, steps_ofNames_of_ne_nil _ Path.isName_of_mem_names hne, hns, List.append_assoc]

/-- An equal path takes the steps of the flat one, and silent ones between them. -/
theorem sublist_of_same_flatten (h : p.Same q.flatten) (hne : q.names ≠ []) :
    (steps q.flatten).Sublist (steps p) := by
  have habs : p.isAbsolute = q.isAbsolute := by rw [Path.isAbsolute_eq_of_same h, Path.isAbsolute_flatten]
  rw [Path.flatten_eq, steps_ofNames_of_ne_nil _ Path.isName_of_mem_names hne, ← spoken_of_same_flatten h, ← habs]
  cases hp : p.isAbsolute with
  | true =>
    rw [(steps_of_isAbsolute hp).1, spoken_cons_silent (by decide)]
    exact (spoken_sublist _).cons_cons ""
  | false => exact spoken_sublist (steps p)

/-- The file that a path finds is found by the flat path that is equal to it. -/
theorem locate_flatten_of_same (h : p.Same q.flatten) {loc : Location} {b : ByteArray}
    (hl : locate t here p = .ok (.present loc (.file b))) :
    locate t here q.flatten = .ok (.present loc (.file b)) := by
  obtain ⟨u, hu, -⟩ := bind_eq_ok.mp hl
  have hends := endsInName_of_locate hl
  have hne : q.names ≠ [] := by
    obtain ⟨xs, x, hxs, hx⟩ := hends
    rw [← spoken_of_same_flatten h, hxs, spoken_append, spoken_cons hx.not_silent]
    simp
  have hq : usable q.flatten = .ok () :=
    usable_of_sublist hu (sublist_of_same_flatten h hne) (isEmpty_flatten hne)
  rw [← locate_eq_of_same h hu hq hends (endsInName_flatten hne) t here]
  exact hl

end FileTree

theorem World.readText_flatten_of_same {w : World} {p q : Path} {text : String} (h : p.Same q.flatten)
    (hread : w.readText p = .ok text) : w.readText q.flatten = .ok text := by
  obtain ⟨b, hbytes, htext⟩ := FileTree.bind_eq_ok.mp hread
  obtain ⟨loc, hl⟩ := FileTree.readBytes_eq_ok.mp hbytes
  refine FileTree.bind_eq_ok.mpr ⟨b, ?_, htext⟩
  exact FileTree.readBytes_eq_ok.mpr ⟨loc, FileTree.locate_flatten_of_same h hl⟩

end ScriptInclude
