import Mathlib.Data.List.Basic
import ScriptInclude.Path.Collapse

/-!
# Paths as names

A text cut at slashes and joined again is the text, and names joined by slashes and cut again are the
names. So a path that is written from proper names has just these names as its components, and
collapsing is a matter of names: the text only carries them.
-/

namespace ScriptInclude

/-! ## Cutting and joining -/

namespace Text

theorem pieces_eq_splitOn (sep : Char) (cs : List Char) : pieces sep cs = cs.splitOn sep := by
  induction cs with
  | nil => rfl
  | cons c cs ih =>
    have hsplit : (c :: cs).splitOn sep =
        if (c == sep) = true then [] :: cs.splitOn sep else (cs.splitOn sep).modifyHead (List.cons c) :=
      List.splitOnP_cons_eq_if_modifyHead c cs
    rw [hsplit, ← ih]
    by_cases h : c = sep
    · simp [pieces, h]
    · have hne : (c == sep) = false := beq_false_of_ne h
      cases hp : pieces sep cs with
      | nil => exact absurd hp (pieces_ne_nil sep cs)
      | cons p ps => simp [pieces, h, hp]

theorem pieces_intercalate (sep : Char) {ps : List (List Char)} (h : ∀ p ∈ ps, sep ∉ p) (hne : ps ≠ []) :
    pieces sep ([sep].intercalate ps) = ps := by
  rw [pieces_eq_splitOn]
  exact List.splitOn_intercalate sep h hne

theorem pieces_append_cons (sep : Char) (xs ys : List Char) :
    pieces sep (xs ++ sep :: ys) = pieces sep xs ++ pieces sep ys := by
  simp only [pieces_eq_splitOn]
  exact List.splitOnP_append_cons xs ys (beq_self_eq_true sep)

/-- Texts that are joined are cut one by one. -/
theorem pieces_intercalate_eq_flatMap (sep : Char) {css : List (List Char)} (hne : css ≠ []) :
    pieces sep ([sep].intercalate css) = css.flatMap (pieces sep) := by
  induction css with
  | nil => exact absurd rfl hne
  | cons cs css ih =>
    cases css with
    | nil => simp
    | cons next rest =>
      rw [List.intercalate_cons_cons, List.append_assoc, List.singleton_append, pieces_append_cons,
        ih (List.cons_ne_nil next rest), ← List.flatMap_cons]

theorem not_mem_of_mem_pieces {sep : Char} {p : List Char} : ∀ {cs : List Char}, p ∈ pieces sep cs → sep ∉ p
  | [], h => by
    obtain rfl : p = [] := by simpa [pieces] using h
    exact List.not_mem_nil
  | c :: cs, h => by
    unfold pieces at h
    split at h
    · rcases List.mem_cons.mp h with rfl | h
      · exact List.not_mem_nil
      · exact not_mem_of_mem_pieces h
    · next hc =>
      cases hp : pieces sep cs with
      | nil => exact absurd hp (pieces_ne_nil sep cs)
      | cons q qs =>
        have ih : ∀ x ∈ q :: qs, sep ∉ x := fun x hx => not_mem_of_mem_pieces (hp ▸ hx)
        rw [hp] at h
        rcases List.mem_cons.mp h with rfl | h
        · have hq : sep ∉ q := ih q List.mem_cons_self
          simp [hq, Ne.symm hc]
        · exact ih p (List.mem_cons_of_mem q h)

theorem mem_pieces {sep c : Char} (h : c ≠ sep) {cs : List Char} : c ∈ cs ↔ ∃ part ∈ pieces sep cs, c ∈ part := by
  induction cs with
  | nil => simp [pieces]
  | cons x cs ih =>
    unfold pieces
    split
    · next hx => simp [ih, hx, h]
    · cases hp : pieces sep cs with
      | nil => exact absurd hp (pieces_ne_nil sep cs)
      | cons part parts =>
        rw [hp] at ih
        simp [ih, or_assoc]

end Text

/-! ## Proper names -/

namespace Path

/-- A name that is a component by itself. -/
structure IsName (s : String) : Prop where
  ne_empty : s ≠ ""
  ne_here : s ≠ "."
  ne_up : s ≠ ".."
  no_slash : '/' ∉ s.toList

theorem toList_ne {s : String} {cs : List Char} (h : s ≠ String.ofList cs) : s.toList ≠ cs :=
  fun hs => h (by rw [← hs, String.ofList_toList])

theorem laterComponent?_of_isName {s : String} (h : IsName s) : laterComponent? s.toList = some (.name s) := by
  have h₁ : s.toList ≠ [] := toList_ne h.ne_empty
  have h₂ : s.toList ≠ ['.'] := toList_ne h.ne_here
  have h₃ : s.toList ≠ ['.', '.'] := toList_ne h.ne_up
  simp [laterComponent?, h₁, h₂, h₃]

theorem firstComponent?_of_isName {s : String} (h : IsName s) : firstComponent? s.toList = some (.name s) := by
  have h₂ : s.toList ≠ ['.'] := toList_ne h.ne_here
  rw [firstComponent?, if_neg h₂, laterComponent?_of_isName h]

theorem isName_of_laterComponent? {part : List Char} {s : String} (hpart : '/' ∉ part)
    (h : laterComponent? part = some (.name s)) : IsName s := by
  unfold laterComponent? at h
  split at h
  · cases h
  · next hsilent =>
    split at h
    · cases h
    · next hup =>
      obtain rfl : String.ofList part = s := by simpa using h
      have hinj : ∀ cs : List Char, String.ofList part = String.ofList cs → part = cs := fun cs => String.ofList_inj.mp
      refine ⟨fun h => ?_, fun h => ?_, fun h => hup (hinj _ h), by simpa using hpart⟩
      · exact hsilent (Or.inl (hinj _ h))
      · exact hsilent (Or.inr (hinj _ h))

theorem isName_of_firstComponent? {part : List Char} {s : String} (hpart : '/' ∉ part)
    (h : firstComponent? part = some (.name s)) : IsName s := by
  unfold firstComponent? at h
  split at h
  · cases h
  · exact isName_of_laterComponent? hpart h

theorem not_mem_of_mem_parts {p : Path} {part : List Char} (h : part ∈ p.parts) : '/' ∉ part :=
  Text.not_mem_of_mem_pieces h

theorem parts_ne_nil (p : Path) : p.parts ≠ [] := Text.pieces_ne_nil '/' p.chars

theorem isName_of_mem_components {p : Path} {s : String} (h : Component.name s ∈ p.components) : IsName s := by
  unfold components at h
  cases hp : p.parts with
  | nil => exact absurd hp (parts_ne_nil p)
  | cons first rest =>
    have hslash : ∀ part ∈ first :: rest, '/' ∉ part := fun part hm => not_mem_of_mem_parts (hp ▸ hm)
    have hlater : Component.name s ∈ rest.filterMap laterComponent? → IsName s := by
      intro hm
      obtain ⟨part, hpart, hs⟩ := List.mem_filterMap.mp hm
      exact isName_of_laterComponent? (hslash part (List.mem_cons_of_mem first hpart)) hs
    rw [hp] at h
    dsimp only at h
    split at h
    · rcases List.mem_cons.mp h with h | h
      · cases h
      · exact hlater h
    · rcases List.mem_append.mp h with h | h
      · exact isName_of_firstComponent? (hslash first List.mem_cons_self) (Option.mem_toList.mp h)
      · exact hlater h

/-! ## Paths written from names -/

theorem chars_ofNames (rooted : Bool) (names : List String) :
    (ofNames rooted names).chars =
      (if rooted then ['/'] else []) ++ ['/'].intercalate (names.map String.toList) := by
  cases rooted <;> simp [ofNames, chars, String.toList_append]

theorem filterMap_laterComponent? {names : List String} (h : ∀ s ∈ names, IsName s) :
    (names.map String.toList).filterMap laterComponent? = names.map .name := by
  induction names with
  | nil => rfl
  | cons s names ih =>
    obtain ⟨hs, hnames⟩ := List.forall_mem_cons.mp h
    rw [List.map_cons, List.filterMap_cons_some (laterComponent?_of_isName hs), ih hnames, List.map_cons]

theorem pieces_names {names : List String} (h : ∀ s ∈ names, IsName s) (hne : names ≠ []) :
    Text.pieces '/' (['/'].intercalate (names.map String.toList)) = names.map String.toList := by
  refine Text.pieces_intercalate '/' ?_ (by simpa using hne)
  intro part hpart
  obtain ⟨s, hs, rfl⟩ := List.mem_map.mp hpart
  exact (h s hs).no_slash

theorem parts_ofNames_rooted {names : List String} (h : ∀ s ∈ names, IsName s) :
    (ofNames true names).parts = [] :: if names = [] then [[]] else names.map String.toList := by
  rw [parts, chars_ofNames]
  by_cases hne : names = []
  · simp [hne, Text.pieces]
  · simp [hne, Text.pieces, pieces_names h hne]

theorem isAbsolute_ofNames (rooted : Bool) {names : List String} (h : ∀ s ∈ names, IsName s) :
    (ofNames rooted names).isAbsolute = rooted := by
  rw [isAbsolute, chars_ofNames]
  cases rooted with
  | true => simp
  | false =>
    cases names with
    | nil => rfl
    | cons s names =>
      have hs : IsName s := h s List.mem_cons_self
      cases hcs : s.toList with
      | nil => exact absurd hcs (toList_ne hs.ne_empty)
      | cons c cs =>
        have hc : c ≠ '/' := fun hc => hs.no_slash (by simp [hcs, hc])
        cases names <;> simp [hcs, hc]

theorem isEmpty_ofNames (rooted : Bool) {names : List String} (h : ∀ s ∈ names, IsName s) (hne : names ≠ []) :
    (ofNames rooted names).isEmpty = false := by
  obtain ⟨s, rest, rfl⟩ := List.exists_cons_of_ne_nil hne
  have hs : s ≠ "" := (h s List.mem_cons_self).ne_empty
  rw [isEmpty, chars_ofNames]
  cases rooted <;> cases rest <;> simp [hs]

theorem components_ofNames (rooted : Bool) {names : List String} (h : ∀ s ∈ names, IsName s) :
    (ofNames rooted names).components = (if rooted then [.root] else []) ++ names.map .name := by
  unfold components
  rw [isAbsolute_ofNames rooted h]
  cases rooted with
  | true =>
    rw [parts_ofNames_rooted h]
    by_cases hne : names = []
    · simp [hne, laterComponent?]
    · simp [hne, filterMap_laterComponent? h]
  | false =>
    have hchars : (ofNames false names).chars = ['/'].intercalate (names.map String.toList) := by
      rw [chars_ofNames]; rfl
    cases names with
    | nil => rfl
    | cons s names =>
      obtain ⟨hs, hnames⟩ := List.forall_mem_cons.mp h
      rw [parts, hchars, pieces_names h (List.cons_ne_nil s names)]
      simp [firstComponent?_of_isName hs, filterMap_laterComponent? hnames]

/-! ## Names on a stack -/

theorem mem_foldl_settle {s : String} {cs : List Component} {stack : List String}
    (h : s ∈ cs.foldl settle stack) : s ∈ stack ∨ Component.name s ∈ cs := by
  induction cs generalizing stack with
  | nil => exact Or.inl h
  | cons c cs ih =>
    rcases ih h with h | h
    · cases c with
      | name s' =>
        rcases List.mem_cons.mp h with rfl | h
        · exact Or.inr List.mem_cons_self
        · exact Or.inl h
      | up => exact Or.inl (List.mem_of_mem_tail h)
      | root | here => exact Or.inl h
    · exact Or.inr (List.mem_cons_of_mem c h)

theorem foldl_settle_names (names stack : List String) :
    (names.map Component.name).foldl settle stack = names.reverse ++ stack := by
  induction names generalizing stack with
  | nil => rfl
  | cons s names ih => simp [ih, settle]

/-- The names that are left of a path when it is collapsed. -/
def names (p : Path) : List String := (p.components.foldl settle []).reverse

theorem isName_of_mem_foldl_settle {p : Path} {cs : List Component} (hcs : ∀ c ∈ cs, c ∈ p.components) :
    ∀ s ∈ (cs.foldl settle []).reverse, IsName s := by
  intro s hs
  rcases mem_foldl_settle (List.mem_reverse.mp hs) with h | h
  · cases h
  · exact isName_of_mem_components (hcs _ h)

theorem isName_of_mem_names {p : Path} : ∀ s ∈ p.names, IsName s :=
  isName_of_mem_foldl_settle (p := p) fun _ h => h

/-! ## Flattened paths -/

theorem flatten_eq (p : Path) : p.flatten = ofNames p.isAbsolute p.names := rfl

theorem isAbsolute_flatten (p : Path) : p.flatten.isAbsolute = p.isAbsolute :=
  isAbsolute_ofNames p.isAbsolute isName_of_mem_names

theorem components_flatten (p : Path) :
    p.flatten.components = (if p.isAbsolute then [.root] else []) ++ p.names.map .name :=
  components_ofNames p.isAbsolute isName_of_mem_names

theorem names_ofNames (rooted : Bool) {names : List String} (h : ∀ s ∈ names, IsName s) :
    (ofNames rooted names).names = names := by
  have hfold : ((if rooted then [Component.root] else []) ++ names.map Component.name).foldl settle [] =
      names.reverse := by
    cases rooted <;> simp [foldl_settle_names, settle]
  rw [Path.names, components_ofNames rooted h, hfold, List.reverse_reverse]

theorem names_flatten (p : Path) : p.flatten.names = p.names := names_ofNames p.isAbsolute isName_of_mem_names

theorem flatten_ofNames (rooted : Bool) {names : List String} (h : ∀ s ∈ names, IsName s) :
    (ofNames rooted names).flatten = ofNames rooted names := by
  rw [flatten_eq, isAbsolute_ofNames rooted h, names_ofNames rooted h]

theorem flatten_flatten (p : Path) : p.flatten.flatten = p.flatten := flatten_ofNames p.isAbsolute isName_of_mem_names

end Path

end ScriptInclude
