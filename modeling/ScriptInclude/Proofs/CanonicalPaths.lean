import ScriptInclude.Proofs.JoinedPaths
import ScriptInclude.Proofs.Parents

/-!
# Canonical paths

A canonical path has no `.` and no `..`, no doubled slash, and no slash at its end unless it is the root. The
collapsed paths are just these, so two of them are the same path only if they are the same text. Collapsing keeps a
stack of names here; pushing and popping on the text, which is read again at each `..`, comes to the same.
-/

namespace ScriptInclude

/-! ## Slashes in a text -/

namespace Text

variable {sep : Char} {cs : List Char}

/-- Two separators in a row have an empty piece between them. -/
theorem doubled_iff :
    [sep, sep] <:+: cs ↔ ∃ before after, before ≠ [] ∧ after ≠ [] ∧ pieces sep cs = before ++ [] :: after := by
  constructor
  · rintro ⟨left, right, rfl⟩
    refine ⟨pieces sep left, pieces sep right, pieces_ne_nil sep left, pieces_ne_nil sep right, ?_⟩
    have hcs : left ++ [sep, sep] ++ right = left ++ sep :: ([] ++ sep :: right) := by simp
    rw [hcs, pieces_append_cons, pieces_append_cons]
    rfl
  · rintro ⟨before, after, hbefore, hafter, hpieces⟩
    have hcs := join_pieces sep cs
    have hsplit : before ++ [] :: after = before ++ ([[]] ++ after) := rfl
    rw [hpieces, hsplit, join_append _ hbefore (by simp), join_append _ (by simp) hafter] at hcs
    refine ⟨join [sep] before, join [sep] after, ?_⟩
    simpa [join] using hcs

theorem getLast?_eq_sep_iff : cs.getLast? = some sep ↔ ∃ before, before ≠ [] ∧ pieces sep cs = before ++ [[]] := by
  constructor
  · intro h
    obtain ⟨init, rfl⟩ := List.getLast?_eq_some_iff.mp h
    refine ⟨pieces sep init, pieces_ne_nil sep init, ?_⟩
    rw [pieces_append_cons]
    rfl
  · rintro ⟨before, hbefore, hpieces⟩
    have hcs := join_pieces sep cs
    rw [hpieces, join_append _ hbefore (by simp)] at hcs
    rw [← hcs]
    simp [join]

end Text

namespace Path

variable {p q : Path} {s : String} {names : List String}

/-! ## Canonical texts -/

structure IsCanonical (p : Path) : Prop where
  no_here : ['.'] ∉ p.parts
  no_up : ['.', '.'] ∉ p.parts
  no_doubled_slash : ¬ ['/', '/'] <:+: p.chars
  no_trailing_slash : p.chars.getLast? = some '/' → p.text = "/"

theorem parts_ofNames (rooted : Bool) (h : ∀ s ∈ names, IsName s) :
    (ofNames rooted names).parts =
      (if rooted then [[]] else []) ++ if names = [] then [[]] else names.map String.toList := by
  cases rooted with
  | true => exact parts_ofNames_rooted h
  | false =>
    rw [parts, chars_ofNames]
    by_cases hne : names = []
    · simp [hne, Text.pieces]
    · simp [hne, pieces_names h hne]

theorem nil_not_mem_names (h : ∀ s ∈ names, IsName s) : [] ∉ names.map String.toList := by
  intro hmem
  obtain ⟨s, hs, hnil⟩ := List.mem_map.mp hmem
  exact (h s hs).ne_empty (String.toList_eq_nil_iff.mp hnil)

/-- Only the root and the empty path have an empty part behind the first place. -/
theorem names_eq_nil_of_parts_eq {rooted : Bool} (h : ∀ s ∈ names, IsName s) {before after : List (List Char)}
    (hbefore : before ≠ []) (hparts : (ofNames rooted names).parts = before ++ [] :: after) :
    rooted = true ∧ names = [] ∧ after = [] := by
  rw [parts_ofNames rooted h] at hparts
  obtain ⟨first, before, rfl⟩ := List.exists_cons_of_ne_nil hbefore
  have hnil := nil_not_mem_names h
  by_cases hne : names = []
  · cases rooted <;> cases before <;> simp_all
  · rw [if_neg hne] at hparts
    exfalso
    apply hnil
    cases rooted with
    | true =>
      rw [if_pos rfl, List.singleton_append, List.cons_append] at hparts
      rw [(List.cons.inj hparts).2]
      simp
    | false =>
      rw [if_neg Bool.false_ne_true, List.nil_append] at hparts
      rw [hparts]
      simp

theorem isCanonical_ofNames (rooted : Bool) (h : ∀ s ∈ names, IsName s) : IsCanonical (ofNames rooted names) := by
  have hmem : ∀ part ∈ (ofNames rooted names).parts, part = [] ∨ ∃ s ∈ names, part = s.toList := by
    intro part hpart
    rw [parts_ofNames rooted h] at hpart
    rcases List.mem_append.mp hpart with hpart | hpart
    · cases rooted <;> simp_all
    · by_cases hne : names = []
      · simp_all
      · rw [if_neg hne] at hpart
        obtain ⟨s, hs, rfl⟩ := List.mem_map.mp hpart
        exact Or.inr ⟨s, hs, rfl⟩
  constructor
  · intro hpart
    rcases hmem _ hpart with hnil | ⟨s, hs, hdot⟩
    · cases hnil
    · exact toList_ne (h s hs).ne_here hdot.symm
  · intro hpart
    rcases hmem _ hpart with hnil | ⟨s, hs, hdots⟩
    · cases hnil
    · exact toList_ne (h s hs).ne_up hdots.symm
  · intro hdoubled
    obtain ⟨before, after, hbefore, hafter, hparts⟩ := Text.doubled_iff.mp hdoubled
    exact hafter (names_eq_nil_of_parts_eq h hbefore hparts).2.2
  · intro hlast
    obtain ⟨before, hbefore, hparts⟩ := Text.getLast?_eq_sep_iff.mp hlast
    obtain ⟨rfl, rfl, -⟩ := names_eq_nil_of_parts_eq h hbefore hparts
    rfl

theorem isCanonical_flatten (p : Path) : IsCanonical p.flatten :=
  isCanonical_ofNames p.isAbsolute isName_of_mem_names

theorem isName_of_mem_parts {part : List Char} (h : IsCanonical p) (hpart : part ∈ p.parts) (hne : part ≠ []) :
    IsName (String.ofList part) := by
  constructor
  · simpa using hne
  · intro hhere
    have hdot : part = ['.'] := String.ofList_inj.mp hhere
    exact h.no_here (hdot ▸ hpart)
  · intro hup
    have hdots : part = ['.', '.'] := String.ofList_inj.mp hup
    exact h.no_up (hdots ▸ hpart)
  · rw [String.toList_ofList]
    exact not_mem_of_mem_parts hpart

/-- An empty part stands at the beginning, or the path is the root. -/
theorem eq_nil_or_root_of_parts_eq (h : IsCanonical p) {before after : List (List Char)}
    (hparts : p.parts = before ++ [] :: after) : before = [] ∨ p.text = "/" := by
  by_cases hbefore : before = []
  · exact Or.inl hbefore
  · right
    by_cases hafter : after = []
    · rw [hafter] at hparts
      exact h.no_trailing_slash (Text.getLast?_eq_sep_iff.mpr ⟨before, hbefore, hparts⟩)
    · exact absurd (Text.doubled_iff.mpr ⟨before, after, hbefore, hafter, hparts⟩) h.no_doubled_slash

theorem ext_chars (h : p.chars = q.chars) : p = q := by
  cases p
  cases q
  exact congrArg Path.mk (String.toList_inj.mp h)

theorem chars_ofNames_pieces (rooted : Bool) (cs : List Char) :
    (ofNames rooted ((Text.pieces '/' cs).map String.ofList)).chars = (if rooted then ['/'] else []) ++ cs := by
  have hpieces : ((Text.pieces '/' cs).map String.ofList).map String.toList = Text.pieces '/' cs := by
    simp [Function.comp_def]
  rw [chars_ofNames, hpieces, ← Text.join_eq_intercalate, Text.join_pieces]

theorem exists_names_of_isCanonical (h : IsCanonical p) :
    ∃ rooted names, (∀ s ∈ names, IsName s) ∧ p = ofNames rooted names := by
  cases hchars : p.chars with
  | nil => exact ⟨false, [], by simp, ext_chars hchars⟩
  | cons c cs =>
    by_cases hc : c = '/'
    · subst hc
      have hparts : p.parts = [] :: Text.pieces '/' cs := by rw [parts, hchars, Text.pieces, if_pos rfl]
      by_cases hroot : p.text = "/"
      · exact ⟨true, [], by simp, congrArg Path.mk hroot⟩
      · refine ⟨true, (Text.pieces '/' cs).map String.ofList, ?_, ext_chars ?_⟩
        · intro s hs
          obtain ⟨part, hpart, rfl⟩ := List.mem_map.mp hs
          apply isName_of_mem_parts h (by simp [hparts, hpart])
          rintro rfl
          obtain ⟨before, after, hsplit⟩ := List.append_of_mem hpart
          rw [hsplit, ← List.cons_append] at hparts
          rcases eq_nil_or_root_of_parts_eq h hparts with hnil | htext
          · cases hnil
          · exact hroot htext
        · rw [chars_ofNames_pieces, hchars]
          rfl
    · refine ⟨false, p.parts.map String.ofList, ?_, ext_chars ?_⟩
      · intro s hs
        obtain ⟨part, hpart, rfl⟩ := List.mem_map.mp hs
        apply isName_of_mem_parts h hpart
        rintro rfl
        obtain ⟨before, after, hsplit⟩ := List.append_of_mem hpart
        rcases eq_nil_or_root_of_parts_eq h hsplit with rfl | htext
        · -- the text does not begin with a slash
          have hjoin := Text.join_pieces '/' p.chars
          rw [← parts, hsplit, hchars] at hjoin
          cases after with
          | nil => simp [Text.join] at hjoin
          | cons next after =>
            apply hc
            simpa [Text.join, eq_comm] using congrArg List.head? hjoin
        · have hroot : c = '/' ∧ cs = [] := by simpa [chars, htext, eq_comm] using hchars
          exact hc hroot.1
      · rw [parts, chars_ofNames_pieces]
        rfl

theorem flatten_eq_self_iff : p.flatten = p ↔ IsCanonical p := by
  constructor
  · intro h
    rw [← h]
    exact isCanonical_flatten p
  · intro h
    obtain ⟨rooted, names, hnames, rfl⟩ := exists_names_of_isCanonical h
    exact flatten_ofNames rooted hnames

theorem same_iff_text_eq (hp : IsCanonical p) (hq : IsCanonical q) : p.Same q ↔ p.text = q.text := by
  constructor
  · intro h
    exact congrArg Path.text (eq_of_same (flatten_eq_self_iff.mpr hp) (flatten_eq_self_iff.mpr hq) h)
  · intro h
    obtain rfl : p = q := ext_chars (congrArg String.toList h)
    exact Same.rfl

/-! ## Pushing and popping -/

/-- One component on a text: a name is pushed, `..` pops the last component unless there is none but the root. -/
def settleText (collapsed : Path) : Component → Path
  | .here => collapsed
  | .root => collapsed.join ⟨"/"⟩
  | .name s => collapsed.join ⟨s⟩
  | .up =>
    if collapsed.components.getLast? = none ∨ collapsed.components.getLast? = some .root then collapsed
    else collapsed.parent?.getD collapsed

theorem isAbsolute_of_isName (h : IsName s) : (Path.mk s).isAbsolute = false := by
  have hs := isAbsolute_ofNames false (List.forall_mem_singleton.mpr h)
  simpa [ofNames] using hs

theorem join_ofNames (rooted : Bool) (h : ∀ s ∈ names, IsName s) (hs : IsName s) :
    (ofNames rooted names).join ⟨s⟩ = ofNames rooted (names ++ [s]) := by
  have hrelative := isAbsolute_of_isName hs
  by_cases hne : names = []
  · subst hne
    cases rooted <;> simp [join, hrelative, ofNames, isEmpty, chars]
  · have hlast : (ofNames rooted names).chars.getLast? ≠ some '/' := by
      intro hlast
      obtain ⟨before, hbefore, hparts⟩ := Text.getLast?_eq_sep_iff.mp hlast
      exact hne (names_eq_nil_of_parts_eq h hbefore hparts).2.1
    have hnonempty := isEmpty_ofNames rooted h hne
    rw [join, if_neg (by simp [hrelative]), if_neg (by simp [hnonempty, hlast])]
    simp [ofNames, String.intercalate_append_of_ne_nil hne, String.append_assoc]

theorem not_silent_of_isName (h : IsName s) : (laterComponent? s.toList).isNone = false := by
  rw [laterComponent?_of_isName h]
  rfl

theorem dropSilent_names (h : ∀ s ∈ names, IsName s) :
    dropSilent (names.map String.toList) = names.map String.toList := by
  rw [dropSilent_eq_rdropWhile, List.rdropWhile_eq_self_iff]
  intro hne hsilent
  obtain ⟨s, hs, hlast⟩ := List.mem_map.mp (List.getLast_mem hne)
  rw [← hlast, not_silent_of_isName (h s hs)] at hsilent
  cases hsilent

theorem dropSilentAfterFirst_names (h : ∀ s ∈ names, IsName s) :
    dropSilentAfterFirst (names.map String.toList) = names.map String.toList := by
  cases names with
  | nil => rfl
  | cons s names =>
    obtain ⟨hs, hnames⟩ := List.forall_mem_cons.mp h
    rw [List.map_cons, dropSilentAfterFirst_cons, dropSilent_names hnames, firstComponent?_of_isName hs]
    simp

theorem ofParts_names (names : List String) : ofParts (names.map String.toList) = ofNames false names := by
  apply ext_chars
  rw [chars_ofParts, chars_ofNames, Text.join_eq_intercalate]
  rfl

theorem parent?_ofNames (rooted : Bool) (h : ∀ s ∈ names, IsName s) (hne : names ≠ []) :
    (ofNames rooted names).parent? = some (ofNames rooted names.dropLast) := by
  have hinit : ∀ s ∈ names.dropLast, IsName s := fun s hs => h s (List.dropLast_subset names hs)
  have hmap : (names.map String.toList).dropLast = names.dropLast.map String.toList := List.map_dropLast.symm
  have hparts := parts_ofNames rooted h
  rw [if_neg hne] at hparts
  unfold parent?
  rw [isAbsolute_ofNames rooted h, hparts]
  cases rooted with
  | true =>
    rw [if_pos rfl, if_pos rfl, List.singleton_append, List.tail_cons, dropSilent_names h]
    split
    · next hnil => exact absurd (List.map_eq_nil_iff.mp hnil) hne
    · rw [hmap, dropSilent_names hinit, ofParts_names]
      simp [ofNames]
  | false =>
    rw [if_neg Bool.false_ne_true, if_neg Bool.false_ne_true, List.nil_append, dropSilentAfterFirst_names h]
    split
    · next hnil => exact absurd (List.map_eq_nil_iff.mp hnil) hne
    · rw [hmap, dropSilentAfterFirst_names hinit, ofParts_names]

theorem settleText_up (rooted : Bool) (h : ∀ s ∈ names, IsName s) :
    settleText (ofNames rooted names) .up = ofNames rooted names.dropLast := by
  have hcomponents := components_ofNames rooted h
  by_cases hne : names = []
  · subst hne
    have hlast : (ofNames rooted []).components.getLast? = none ∨
        (ofNames rooted []).components.getLast? = some .root := by
      rw [hcomponents]
      cases rooted <;> simp
    rw [settleText, if_pos hlast]
    rfl
  · obtain ⟨init, s, hsplit⟩ := (List.eq_nil_or_concat names).resolve_left hne
    rw [List.concat_eq_append] at hsplit
    have hlast : (ofNames rooted names).components.getLast? = some (.name s) := by
      rw [hcomponents, hsplit]
      simp
    rw [settleText, hlast, if_neg (by simp), parent?_ofNames rooted h hne]
    rfl

/-- What is written so far is a path of the names on the stack. -/
theorem foldl_settleText (rooted : Bool) {cs : List Component} {stack : List String} (hroot : Component.root ∉ cs)
    (hcs : ∀ s, Component.name s ∈ cs → IsName s) (hstack : ∀ s ∈ stack, IsName s) :
    cs.foldl settleText (ofNames rooted stack.reverse) = ofNames rooted (cs.foldl settle stack).reverse := by
  induction cs generalizing stack with
  | nil => rfl
  | cons c cs ih =>
    have hmore : ∀ s, Component.name s ∈ cs → IsName s := fun s hs => hcs s (List.mem_cons_of_mem c hs)
    have hnames : ∀ s ∈ stack.reverse, IsName s := fun s hs => hstack s (List.mem_reverse.mp hs)
    have hroots : Component.root ∉ cs := fun h => hroot (List.mem_cons_of_mem c h)
    rw [List.foldl_cons, List.foldl_cons]
    cases c with
    | here => exact ih hroots hmore hstack
    | root => exact absurd List.mem_cons_self hroot
    | name s =>
      have hs : IsName s := hcs s List.mem_cons_self
      rw [settleText, join_ofNames rooted hnames hs, ← List.reverse_cons]
      exact ih hroots hmore (List.forall_mem_cons.mpr ⟨hs, hstack⟩)
    | up =>
      rw [settleText_up rooted hnames, List.dropLast_reverse]
      exact ih hroots hmore fun s hs => hstack s (List.mem_of_mem_tail hs)

/-- The stack of names and the text that is pushed to and popped from come to the same. -/
theorem flatten_eq_foldl (p : Path) : p.flatten = p.components.foldl settleText ⟨""⟩ := by
  have hnames : ∀ s, Component.name s ∈ p.components → IsName s := fun s hs => isName_of_mem_components hs
  rw [flatten]
  cases hp : p.isAbsolute with
  | false =>
    have hroot : Component.root ∉ p.components := by
      rw [root_mem_components, hp]
      exact Bool.false_ne_true
    exact (foldl_settleText false hroot hnames (by simp)).symm
  | true =>
    obtain ⟨first, rest, hparts⟩ := List.exists_cons_of_ne_nil (parts_ne_nil p)
    have hcomponents : p.components = .root :: rest.filterMap laterComponent? := by
      rw [components_eq, hp, hparts]
      rfl
    have hroot : Component.root ∉ rest.filterMap laterComponent? := by
      intro hmem
      obtain ⟨part, -, hpart⟩ := List.mem_filterMap.mp hmem
      exact laterComponent?_ne_root part hpart
    have hpush : settleText ⟨""⟩ .root = ofNames true [].reverse := by decide
    rw [hcomponents] at hnames ⊢
    rw [List.foldl_cons, List.foldl_cons, hpush,
      foldl_settleText true hroot (fun s hs => hnames s (List.mem_cons_of_mem _ hs)) (by simp)]
    rfl

/-- **Collapsed paths are canonical.** So two of them are the same path exactly if they are the same text. They begin
with a slash where the path that was joined onto the base does, and are what pushing and popping on the text gives. -/
theorem collapse_canonical (p base q base' : Path) :
    (p.collapse base).IsCanonical ∧
      ((p.collapse base).Same (q.collapse base') ↔ (p.collapse base).text = (q.collapse base').text) ∧
      (p.collapse base).isAbsolute = (p.rebase base).isAbsolute ∧
      p.collapse base = (p.rebase base).components.foldl settleText ⟨""⟩ := by
  have hp : (p.collapse base).IsCanonical := isCanonical_flatten (p.rebase base)
  have hq : (q.collapse base').IsCanonical := isCanonical_flatten (q.rebase base')
  exact ⟨hp, same_iff_text_eq hp hq, isAbsolute_flatten (p.rebase base), flatten_eq_foldl (p.rebase base)⟩

/-- Slashes and dots that mean nothing, and ways back beyond the beginning. -/
example :
    (Path.mk "..//a/./../../b/").collapse ⟨"w"⟩ = ⟨"b"⟩ ∧ (Path.mk "//../.").collapse ⟨"w"⟩ = ⟨"/"⟩ ∧
      (Path.mk "..").collapse ⟨"w/"⟩ = ⟨""⟩ := by
  decide

end Path

end ScriptInclude
