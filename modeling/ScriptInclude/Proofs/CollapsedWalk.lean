import Mathlib.Algebra.GroupWithZero.Nat
import Mathlib.Algebra.Order.BigOperators.Group.List
import Mathlib.Algebra.Order.Group.Nat
import Mathlib.Data.List.Induction
import ScriptInclude.Proofs.PathNames
import ScriptInclude.Proofs.Walking
import ScriptInclude.World

/-!
# Walking a collapsed path

Collapsing takes `..` and the name before it out of the text; a walk goes up from wherever that name has
led. The two agree as long as the name is a directory's own and not a link: then the walk of the collapsed
path passes the same directories, follows the same links, and finds the same entry.
-/

namespace ScriptInclude

/-! ## Components of steps -/

namespace FileTree

open ScriptInclude.Path (Component IsName ofNames settle)

def component? (step : String) : Option Component := Path.laterComponent? step.toList

theorem component?_silent {step : String} (h : isSilent step = true) : component? step = none := by
  have hs : step = "" ∨ step = "." := by simpa [isSilent] using h
  rcases hs with rfl | rfl <;> decide

theorem component?_up : component? ".." = some .up := by decide

theorem component?_entryName {step : String} (h : IsEntryName step) : component? step = some (.name step) := by
  have h₀ : step ≠ "" ∧ step ≠ "." := by simpa [isSilent] using h.not_silent
  have h₁ : step.toList ≠ [] := Path.toList_ne h₀.1
  have h₂ : step.toList ≠ ['.'] := Path.toList_ne h₀.2
  have h₃ : step.toList ≠ ['.', '.'] := Path.toList_ne h.ne_up
  simp [component?, Path.laterComponent?, h₁, h₂, h₃]

/-- What collapsing keeps of the steps, the last one first. -/
def kept (xs : List String) : List String := (xs.filterMap component?).foldl settle []

theorem kept_append_silent {xs : List String} {x : String} (h : isSilent x = true) : kept (xs ++ [x]) = kept xs := by
  simp [kept, List.filterMap_append, component?_silent h]

theorem kept_append_up (xs : List String) : kept (xs ++ [".."]) = (kept xs).tail := by
  simp [kept, List.filterMap_append, component?_up, settle]

theorem kept_append_entryName {xs : List String} {x : String} (h : IsEntryName x) :
    kept (xs ++ [x]) = x :: kept xs := by
  simp [kept, List.filterMap_append, component?_entryName h, settle]

theorem step_cases (x : String) : isSilent x = true ∨ x = ".." ∨ IsEntryName x := by
  by_cases h : isSilent x = true
  · exact Or.inl h
  · by_cases hup : x = ".."
    · exact Or.inr (Or.inl hup)
    · exact Or.inr (Or.inr ⟨h, hup⟩)

theorem kept_sublist (xs : List String) : (kept xs).reverse.Sublist xs := by
  induction xs using List.reverseRecOn with
  | nil => exact List.nil_sublist []
  | append_singleton xs x ih =>
    rcases step_cases x with h | rfl | h
    · rw [kept_append_silent h]
      exact ih.trans (List.sublist_append_left xs [x])
    · rw [kept_append_up]
      exact ((List.tail_sublist (kept xs)).reverse.trans ih).trans (List.sublist_append_left xs [".."])
    · rw [kept_append_entryName h, List.reverse_cons]
      exact ih.append (List.Sublist.refl [x])

theorem isEntryName_of_mem_kept {xs : List String} {x : String} (h : x ∈ kept xs) : IsEntryName x := by
  rcases Path.mem_foldl_settle h with h | h
  · cases h
  · obtain ⟨y, -, hy⟩ := List.mem_filterMap.mp h
    rcases step_cases y with hs | rfl | hn
    · rw [component?_silent hs] at hy; cases hy
    · rw [component?_up] at hy; cases hy
    · rw [component?_entryName hn] at hy
      cases hy
      exact hn

/-! ## The walk of what is kept -/

variable {t : FileTree} {links : Nat}

/-- No `..` among the steps takes back a link. -/
def TakesNoLinkBack (t : FileTree) (links : Nat) (xs : List String) : Prop :=
  ∀ ys zs, xs = ys ++ ".." :: zs → ∀ loc target,
    walk t false links [] (kept ys).reverse ≠ .ok (.present loc (.link target))

theorem TakesNoLinkBack.of_append {xs ys : List String} (h : TakesNoLinkBack t links (xs ++ ys)) :
    TakesNoLinkBack t links xs := by
  intro as bs has
  exact h as (bs ++ ys) (by rw [has, List.append_assoc, List.cons_append])

theorem enter_kept {xs : List String} (h : TakesNoLinkBack t links xs) {left : Nat} {loc : Location}
    (he : enter t links [] xs = .ok (left, loc)) : enter t links [] (kept xs).reverse = .ok (left, loc) := by
  induction xs using List.reverseRecOn generalizing left loc with
  | nil => exact he
  | append_singleton xs x ih =>
    obtain ⟨l, d, hxs, hx⟩ := enter_append_eq_ok.mp he
    have hkept : enter t links [] (kept xs).reverse = .ok (l, d) := ih h.of_append hxs
    rcases step_cases x with hsilent | rfl | hname
    · rw [enter_silent hsilent, enter_nil] at hx
      cases hx
      rw [kept_append_silent hsilent]
      exact hkept
    · rw [enter_up, enter_nil] at hx
      cases hx
      rw [kept_append_up]
      cases hys : kept xs with
      | nil =>
        rw [hys, List.reverse_nil, enter_nil] at hkept
        cases hkept
        exact enter_nil
      | cons y ys =>
        rw [hys, List.reverse_cons] at hkept
        obtain ⟨l', d', hparent, hy⟩ := enter_append_eq_ok.mp hkept
        have hyname : IsEntryName y := isEntryName_of_mem_kept (hys ▸ List.mem_cons_self)
        rcases enter_name_eq_ok hyname hy with ⟨rfl, rfl⟩ | ⟨target, hlink⟩
        · rw [List.dropLast_concat]
          exact hparent
        · -- the name that is taken back would be a link
          refine absurd ?_ (h xs [] rfl (d' ++ [y]) target)
          rw [hys, List.reverse_cons]
          exact (walk_append_eq_ok (List.cons_ne_nil y [])).mpr ⟨l', d', hparent, hlink⟩
    · rw [kept_append_entryName hname, List.reverse_cons]
      exact enter_append_eq_ok.mpr ⟨l, d, hkept, hx⟩

theorem walk_kept {xs : List String} (h : TakesNoLinkBack t links xs) {loc : Location} {b : ByteArray}
    (hw : walk t true links [] xs = .ok (.present loc (.file b))) :
    walk t true links [] (kept xs).reverse = .ok (.present loc (.file b)) := by
  rcases List.eq_nil_or_concat xs with rfl | ⟨xs, x, rfl⟩
  · simp at hw
  · rw [List.concat_eq_append] at h hw ⊢
    have hne : [x] ≠ [] := List.cons_ne_nil x []
    obtain ⟨l, d, hxs, hx⟩ := (walk_append_eq_ok hne).mp hw
    rw [kept_append_entryName (isEntryName_of_walk_eq_file hx), List.reverse_cons]
    exact (walk_append_eq_ok hne).mpr ⟨l, d, enter_kept h.of_append hxs, hx⟩

/-! ## The steps of an absolute path -/

variable {p : Path} {ns : List String}

theorem parts_of_isAbsolute (hp : p.isAbsolute = true) : ∃ rest, p.parts = [] :: rest := by
  unfold Path.isAbsolute at hp
  cases hcs : p.chars with
  | nil => rw [hcs] at hp; cases hp
  | cons c cs =>
    obtain rfl : c = '/' := by simpa [hcs] using hp
    exact ⟨Text.pieces '/' cs, by simp [Path.parts, hcs, Text.pieces]⟩

theorem steps_of_isAbsolute (hp : p.isAbsolute = true) :
    steps p = "" :: (steps p).tail ∧ p.components = .root :: (steps p).tail.filterMap component? := by
  obtain ⟨rest, hparts⟩ := parts_of_isAbsolute hp
  have hsteps : steps p = "" :: rest.map String.ofList := by rw [steps, hparts]; rfl
  refine ⟨by rw [hsteps]; rfl, ?_⟩
  have hcomponent : ∀ part, component? (String.ofList part) = Path.laterComponent? part := by simp [component?]
  rw [Path.components, hparts]
  simp [hp, hsteps, hcomponent, List.filterMap_map]

theorem steps_ofNames (h : ∀ s ∈ ns, IsName s) :
    steps (ofNames true ns) = "" :: if ns = [] then [""] else ns := by
  rw [steps, Path.parts_ofNames_rooted h]
  by_cases hne : ns = [] <;> simp [hne, Function.comp_def]

theorem names_of_isAbsolute (hp : p.isAbsolute = true) : p.names = (kept (steps p).tail).reverse := by
  rw [Path.names, (steps_of_isAbsolute hp).2]
  rfl

/-! ## Paths that can be used -/

theorem usable_eq_ok :
    usable p = .ok () ↔ p.isEmpty = false ∧ Char.ofNat 0 ∉ p.chars ∧ p.text.utf8ByteSize ≤ maxPath := by
  unfold usable
  split
  · next h => simp [h]
  · next h =>
    split
    · next h' => simp [List.contains_iff_mem.mp h']
    · next h' =>
      have hzero : Char.ofNat 0 ∉ p.chars := fun hm => h' (List.contains_iff_mem.mpr hm)
      split
      · next hlong => simp [Nat.not_le.mpr hlong]
      · next hshort => simp [h, hzero, Nat.not_lt.mp hshort]

theorem utf8ByteSize_ofList_cons (c : Char) (cs : List Char) :
    (String.ofList (c :: cs)).utf8ByteSize = c.utf8Size + (String.ofList cs).utf8ByteSize := by
  rw [String.ofList_cons, String.utf8ByteSize_append, String.utf8ByteSize_singleton]

theorem sum_pieces (cs : List Char) :
    ((Text.pieces '/' cs).map fun part => (String.ofList part).utf8ByteSize + 1).sum =
      (String.ofList cs).utf8ByteSize + 1 := by
  have hslash : ('/' : Char).utf8Size = 1 := by decide
  induction cs with
  | nil => rfl
  | cons c cs ih =>
    unfold Text.pieces
    split
    · next hc =>
      rw [List.map_cons, List.sum_cons, ih, hc, utf8ByteSize_ofList_cons, hslash]
      simp [Nat.add_comm]
    · cases hp : Text.pieces '/' cs with
      | nil => exact absurd hp (Text.pieces_ne_nil '/' cs)
      | cons part parts =>
        rw [hp, List.map_cons, List.sum_cons] at ih
        dsimp only
        rw [List.map_cons, List.sum_cons, utf8ByteSize_ofList_cons, utf8ByteSize_ofList_cons]
        omega

theorem sum_steps (p : Path) : ((steps p).map fun s => s.utf8ByteSize + 1).sum = p.text.utf8ByteSize + 1 := by
  have hsum := sum_pieces p.chars
  rw [Path.chars, String.ofList_toList] at hsum
  rw [← hsum, steps, List.map_map]
  rfl

theorem mem_chars_iff {c : Char} (h : c ≠ '/') : c ∈ p.chars ↔ ∃ s ∈ steps p, c ∈ s.toList := by
  rw [Text.mem_pieces h]
  simp [steps, Path.parts]

/-- A path takes fewer steps than one that can be used. -/
theorem usable_of_sublist {q : Path} (hu : usable p = .ok ()) (hsub : (steps q).Sublist (steps p))
    (hne : q.isEmpty = false) : usable q = .ok () := by
  obtain ⟨-, hzero, hshort⟩ := usable_eq_ok.mp hu
  refine usable_eq_ok.mpr ⟨hne, ?_, ?_⟩
  · intro hm
    obtain ⟨s, hs, hc⟩ := (mem_chars_iff (by decide)).mp hm
    exact hzero ((mem_chars_iff (by decide)).mpr ⟨s, hsub.subset hs, hc⟩)
  · have hle : ((steps q).map fun s => s.utf8ByteSize + 1).sum ≤ ((steps p).map fun s => s.utf8ByteSize + 1).sum :=
      (hsub.map _).sum_le_sum fun _ _ => Nat.zero_le _
    rw [sum_steps, sum_steps] at hle
    omega

/-- A path from some of the names of a path that can be used. -/
theorem usable_ofNames (hp : p.isAbsolute = true) (hu : usable p = .ok ()) (hn : ∀ s ∈ ns, IsName s)
    (hsub : ns.Sublist (steps p).tail) : usable (ofNames true ns) = .ok () := by
  by_cases hns : ns = []
  · subst hns
    decide
  · refine usable_of_sublist hu ?_ (by simp [Path.isEmpty, Path.chars_ofNames])
    rw [steps_ofNames hn, if_neg hns, (steps_of_isAbsolute hp).1]
    exact hsub.cons_cons ""

/-! ## Where a collapsed path leads -/

theorem locate_eq_ok (hp : p.isAbsolute = true) {here : Location} {spot : Spot} :
    locate t here p = .ok spot ↔ usable p = .ok () ∧ walk t true maxLinks [] (steps p).tail = .ok spot := by
  have hsteps : walk t true maxLinks [] (steps p) = walk t true maxLinks [] (steps p).tail := by
    rw [(steps_of_isAbsolute hp).1, walk_silent (by decide)]
    rfl
  rw [locate, start, if_pos hp, hsteps]
  cases hu : usable p <;> simp [bind, Except.bind]

theorem tail_steps_ofNames (hn : ∀ s ∈ ns, IsName s) (hne : ns ≠ []) : (steps (ofNames true ns)).tail = ns := by
  rw [steps_ofNames hn, if_neg hne]
  rfl

theorem locateEntry_of_steps {xs : List String} {x : String} (h : steps p = xs ++ [x]) (hx : x ≠ "")
    (t : FileTree) (here : Location) :
    locateEntry t here p = (usable p).bind fun _ => walk t false maxLinks (start p here) (xs ++ [x]) := by
  have hlast : ((xs ++ [x]).reverse.dropWhile fun s => decide (s = "")).reverse = xs ++ [x] := by simp [hx]
  rw [locateEntry, h, hlast]
  rfl

theorem locateEntry_ofNames (hu : usable (ofNames true ns) = .ok ()) (hn : ∀ s ∈ ns, IsName s) (hne : ns ≠ [])
    (here : Location) : locateEntry t here (ofNames true ns) = walk t false maxLinks [] ns := by
  obtain ⟨xs, x, rfl⟩ := (List.eq_nil_or_concat ns).resolve_left hne
  rw [List.concat_eq_append] at hu hn hne ⊢
  have hx : IsName x := hn x (by simp)
  have hsteps : steps (ofNames true (xs ++ [x])) = ("" :: xs) ++ [x] := by
    rw [steps_ofNames hn, if_neg hne]
    rfl
  have hstart : start (ofNames true (xs ++ [x])) here = [] := by
    rw [start, if_pos (Path.isAbsolute_ofNames true hn)]
  rw [locateEntry_of_steps hsteps hx.ne_empty, hu, hstart, List.cons_append]
  exact walk_silent (by decide)

end FileTree

namespace World

open ScriptInclude.Path (ofNames settle)

/-- A link stands at the path itself. -/
def isLink (w : World) (p : Path) : Bool :=
  match w.tree.locateEntry w.here p with
  | .ok (.present _ (.link _)) => true
  | _ => false

/-- What stands before a `..` of the path is no link once it is collapsed. -/
def LeavesNoLink (w : World) (p : Path) : Prop :=
  ∀ k < p.components.length, p.components[k]? = some .up →
    w.isLink (ofNames p.isAbsolute ((p.components.take k).foldl settle []).reverse) = false

instance (w : World) (p : Path) : Decidable (w.LeavesNoLink p) := inferInstanceAs (Decidable (∀ _, _ → _))

theorem takesNoLinkBack {w : World} {p : Path} (hp : p.isAbsolute = true) (hu : FileTree.usable p = .ok ())
    (h : w.LeavesNoLink p) : FileTree.TakesNoLinkBack w.tree FileTree.maxLinks (FileTree.steps p).tail := by
  intro ys zs hsplit loc target hw
  obtain ⟨-, hcomponents⟩ := FileTree.steps_of_isAbsolute hp
  -- the place of the `..` among the components
  have hsplit' : p.components =
      (.root :: ys.filterMap FileTree.component?) ++ .up :: zs.filterMap FileTree.component? := by
    rw [hcomponents, hsplit, List.filterMap_append, List.filterMap_cons_some FileTree.component?_up, List.cons_append]
  have hnot := h (ys.filterMap FileTree.component?).length.succ (by simp [hsplit']) (by simp [hsplit'])
  have htake : p.components.take (ys.filterMap FileTree.component?).length.succ =
      .root :: ys.filterMap FileTree.component? := by simp [hsplit']
  have hnames : ∀ s ∈ (FileTree.kept ys).reverse, Path.IsName s :=
    Path.isName_of_mem_foldl_settle fun c hc => by
      rw [hsplit']
      exact List.mem_append_left _ (List.mem_cons_of_mem _ hc)
  have hsub : (FileTree.kept ys).reverse.Sublist (FileTree.steps p).tail := by
    rw [hsplit]
    exact (FileTree.kept_sublist ys).trans (List.sublist_append_left ys _)
  have hne : (FileTree.kept ys).reverse ≠ [] := by
    intro hnil
    rw [hnil, FileTree.walk_nil] at hw
    cases hw
  have hlink : w.isLink (ofNames true (FileTree.kept ys).reverse) = true := by
    rw [isLink, FileTree.locateEntry_ofNames (FileTree.usable_ofNames hp hu hnames hsub) hnames hne, hw]
  rw [htake, hp] at hnot
  exact Bool.false_ne_true (hnot.symm.trans hlink)

/-- A file that a path finds is also found by the collapsed path, if no `..` of the path leaves a link. -/
theorem locate_flatten {w : World} {p : Path} (hp : p.isAbsolute = true) (h : w.LeavesNoLink p) {loc : Location}
    {b : ByteArray} (hl : w.tree.locate w.here p = .ok (.present loc (.file b))) :
    w.tree.locate w.here p.flatten = .ok (.present loc (.file b)) := by
  obtain ⟨hu, hw⟩ := (FileTree.locate_eq_ok hp).mp hl
  have hkept := FileTree.walk_kept (takesNoLinkBack hp hu h) hw
  rw [← FileTree.names_of_isAbsolute hp] at hkept
  have hne : p.names ≠ [] := by
    intro hnil
    rw [hnil, FileTree.walk_nil] at hkept
    cases hkept
  have hflat : p.flatten = ofNames true p.names := by rw [Path.flatten_eq, hp]
  have hsub : p.names.Sublist (FileTree.steps p).tail := by
    rw [FileTree.names_of_isAbsolute hp]
    exact FileTree.kept_sublist _
  have habs : p.flatten.isAbsolute = true := by rw [Path.isAbsolute_flatten, hp]
  refine (FileTree.locate_eq_ok habs).mpr ⟨?_, ?_⟩
  · rw [hflat]
    exact FileTree.usable_ofNames hp hu Path.isName_of_mem_names hsub
  · rw [hflat, FileTree.tail_steps_ofNames Path.isName_of_mem_names hne]
    exact hkept

end World

end ScriptInclude
