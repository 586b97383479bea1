import Mathlib.Data.List.DropRight
import ScriptInclude.Proofs.PathNames

/-!
# The parents of a path

Cutting a path off before its last name works on the text, and leaves out what means nothing. In terms of
components the last one goes and the others stay, so the components of an ancestor are the first ones of
the path.
-/

namespace ScriptInclude

namespace Text

theorem join_eq_intercalate (sep : List Char) : ∀ ps, join sep ps = sep.intercalate ps
  | [] => rfl
  | [p] => by simp [join]
  | p :: q :: ps => by simp [join, join_eq_intercalate sep (q :: ps)]

theorem pieces_join {sep : Char} {ps : List (List Char)} (h : ∀ p ∈ ps, sep ∉ p) (hne : ps ≠ []) :
    pieces sep (join [sep] ps) = ps := by
  rw [join_eq_intercalate]
  exact pieces_intercalate sep h hne

theorem join_append (sep : List Char) {ps qs : List (List Char)} (hps : ps ≠ []) (hqs : qs ≠ []) :
    join sep (ps ++ qs) = join sep ps ++ sep ++ join sep qs := by
  induction ps with
  | nil => exact absurd rfl hps
  | cons p ps ih =>
    cases ps with
    | nil =>
      obtain ⟨q, qs, rfl⟩ := List.exists_cons_of_ne_nil hqs
      rfl
    | cons next ps =>
      have hnext := ih (List.cons_ne_nil next ps)
      rw [List.cons_append] at hnext
      simp only [List.cons_append, join, hnext, List.append_assoc]

theorem join_isPrefix (sep : List Char) {ps qs : List (List Char)} (h : ps <+: qs) : join sep ps <+: join sep qs := by
  obtain ⟨rest, rfl⟩ := h
  by_cases hps : ps = []
  · rw [hps]
    exact List.nil_prefix
  · by_cases hrest : rest = []
    · simp [hrest]
    · rw [join_append sep hps hrest, List.append_assoc]
      exact List.prefix_append _ _

end Text

namespace Path

variable {p q : Path} {first : List Char} {parts rest : List (List Char)}

/-! ## Trailing parts that mean nothing -/

theorem dropSilent_eq_rdropWhile (parts : List (List Char)) :
    dropSilent parts = parts.rdropWhile fun part => (laterComponent? part).isNone := rfl

theorem mem_of_mem_dropSilent {part : List Char} (h : part ∈ dropSilent parts) : part ∈ parts := by
  rw [dropSilent_eq_rdropWhile] at h
  exact (List.rdropWhile_prefix _ _).subset h

theorem filterMap_dropSilent (parts : List (List Char)) :
    (dropSilent parts).filterMap laterComponent? = parts.filterMap laterComponent? := by
  rw [dropSilent_eq_rdropWhile]
  induction parts using List.reverseRecOn with
  | nil => rw [List.rdropWhile_nil]
  | append_singleton parts part ih =>
    rw [List.rdropWhile_concat]
    split
    · next h =>
      have hnone : laterComponent? part = none := by simpa using h
      rw [ih, List.filterMap_append]
      simp [hnone]
    · rfl

theorem filterMap_eq_nil_iff : parts.filterMap laterComponent? = [] ↔ dropSilent parts = [] := by
  rw [dropSilent_eq_rdropWhile, List.rdropWhile_eq_nil_iff, List.filterMap_eq_nil_iff]
  simp

/-- The last part that is left has a component. -/
theorem filterMap_dropLast_dropSilent (h : dropSilent parts ≠ []) :
    (dropSilent parts).dropLast.filterMap laterComponent? = (parts.filterMap laterComponent?).dropLast := by
  obtain ⟨init, last, hlast⟩ := (List.eq_nil_or_concat (dropSilent parts)).resolve_left h
  rw [List.concat_eq_append] at hlast
  have hsome : laterComponent? last ≠ none := by
    have hnot := List.rdropWhile_last_not (fun part => (laterComponent? part).isNone) parts h
    simpa [← dropSilent_eq_rdropWhile, hlast] using hnot
  cases hc : laterComponent? last with
  | none => exact absurd hc hsome
  | some c =>
    rw [← filterMap_dropSilent parts, hlast, List.dropLast_concat, List.filterMap_append]
    simp [hc]

/-! ## Paths written from parts -/

theorem components_rooted (h : ∀ part ∈ parts, '/' ∉ part) :
    (Path.mk ("/" ++ (ofParts parts).text)).components = .root :: parts.filterMap laterComponent? := by
  have hchars : (Path.mk ("/" ++ (ofParts parts).text)).chars = '/' :: Text.join ['/'] parts := by
    simp [chars, ofParts, String.toList_append]
  have hparts : (Path.mk ("/" ++ (ofParts parts).text)).parts = [] :: if parts = [] then [[]] else parts := by
    rw [Path.parts, hchars, Text.pieces, if_pos rfl]
    by_cases hne : parts = []
    · simp [hne, Text.join, Text.pieces]
    · rw [if_neg hne, Text.pieces_join h hne]
  rw [components, hparts, isAbsolute, hchars]
  by_cases hne : parts = []
  · simp [hne, laterComponent?]
  · simp [hne]

theorem components_ofParts (h : ∀ part ∈ first :: rest, '/' ∉ part) (hfirst : first ≠ []) :
    (ofParts (first :: rest)).components = (firstComponent? first).toList ++ rest.filterMap laterComponent? := by
  have hchars : (ofParts (first :: rest)).chars = Text.join ['/'] (first :: rest) := by simp [chars, ofParts]
  have hrelative : (ofParts (first :: rest)).isAbsolute = false := by
    rw [isAbsolute, hchars]
    cases first with
    | nil => exact absurd rfl hfirst
    | cons c cs =>
      have hc : c ≠ '/' := by
        rintro rfl
        exact h _ List.mem_cons_self List.mem_cons_self
      cases rest <;> simp [Text.join, hc]
  have hparts : (ofParts (first :: rest)).parts = first :: rest := by
    rw [Path.parts, hchars, Text.pieces_join h (List.cons_ne_nil first rest)]
  rw [components, hparts, hrelative]
  rfl

/-! ## The parent -/

theorem parent?_of_isAbsolute (hp : p.isAbsolute = true) (h : p.parent? = some q) :
    dropSilent p.parts.tail ≠ [] ∧
      q = ⟨"/" ++ (ofParts (dropSilent (dropSilent p.parts.tail).dropLast)).text⟩ := by
  unfold parent? at h
  rw [if_pos hp] at h
  cases hdrop : dropSilent p.parts.tail with
  | nil => rw [hdrop] at h; cases h
  | cons part parts =>
    rw [hdrop] at h
    exact ⟨List.cons_ne_nil part parts, (Option.some.inj h).symm⟩

theorem components_parent?_of_isAbsolute (hp : p.isAbsolute = true) (h : p.parent? = some q) :
    q.components = p.components.dropLast := by
  obtain ⟨hne, rfl⟩ := parent?_of_isAbsolute hp h
  cases hcut : p.parts with
  | nil => exact absurd hcut (parts_ne_nil p)
  | cons first rest =>
    rw [hcut] at hne
    have hrest : dropSilent rest ≠ [] := hne
    have hslash : ∀ part ∈ dropSilent (dropSilent rest).dropLast, '/' ∉ part := by
      intro part hpart
      have hmem : part ∈ p.parts := by
        rw [hcut]
        exact List.mem_cons_of_mem first (mem_of_mem_dropSilent (List.dropLast_subset _ (mem_of_mem_dropSilent hpart)))
      exact not_mem_of_mem_parts hmem
    have hsome : rest.filterMap laterComponent? ≠ [] := fun h => hrest (filterMap_eq_nil_iff.mp h)
    show (Path.mk ("/" ++ (ofParts (dropSilent (dropSilent rest).dropLast)).text)).components = _
    rw [components_rooted hslash, filterMap_dropSilent, filterMap_dropLast_dropSilent hrest, components, hcut]
    dsimp only
    rw [if_pos hp, List.dropLast_cons_of_ne_nil hsome]

theorem first_ne_nil_of_relative (hp : p.isAbsolute = false) (hcut : p.parts = first :: rest) (hrest : rest ≠ []) :
    first ≠ [] := by
  rintro rfl
  unfold isAbsolute at hp
  unfold Path.parts at hcut
  cases hcs : p.chars with
  | nil =>
    rw [hcs] at hcut
    cases hcut
    exact hrest rfl
  | cons c cs =>
    have hc : c ≠ '/' := by
      rintro rfl
      rw [hcs] at hp
      cases hp
    rw [hcs, Text.pieces, if_neg hc] at hcut
    cases hpieces : Text.pieces '/' cs with
    | nil => exact Text.pieces_ne_nil '/' cs hpieces
    | cons part parts =>
      rw [hpieces] at hcut
      cases hcut

theorem dropSilentAfterFirst_cons (first : List Char) (rest : List (List Char)) :
    dropSilentAfterFirst (first :: rest) =
      if dropSilent rest = [] ∧ firstComponent? first = none then [] else first :: dropSilent rest := by
  cases hrest : dropSilent rest with
  | nil => cases hc : firstComponent? first <;> simp [dropSilentAfterFirst, hrest, hc]
  | cons part parts => simp [dropSilentAfterFirst, hrest]

theorem components_dropSilentAfterFirst (h : ∀ part ∈ first :: rest, '/' ∉ part) (hfirst : first = [] → rest = []) :
    (ofParts (dropSilentAfterFirst (first :: rest))).components =
      (firstComponent? first).toList ++ rest.filterMap laterComponent? := by
  rw [dropSilentAfterFirst_cons]
  split
  · next hsilent =>
    rw [hsilent.2, filterMap_eq_nil_iff.mpr hsilent.1]
    rfl
  · next hkept =>
    have hne : first ≠ [] := by
      intro hnil
      apply hkept
      rw [hnil, hfirst hnil]
      exact ⟨rfl, rfl⟩
    have hslash : ∀ part ∈ first :: dropSilent rest, '/' ∉ part := by
      intro part hpart
      apply h part
      rcases List.mem_cons.mp hpart with rfl | hpart
      · exact List.mem_cons_self
      · exact List.mem_cons_of_mem first (mem_of_mem_dropSilent hpart)
    rw [components_ofParts hslash hne, filterMap_dropSilent]

theorem parent?_of_relative (hp : p.isAbsolute = false) (h : p.parent? = some q) :
    dropSilentAfterFirst p.parts ≠ [] ∧ q = ofParts (dropSilentAfterFirst (dropSilentAfterFirst p.parts).dropLast) := by
  unfold parent? at h
  rw [if_neg (by simp [hp])] at h
  cases hdrop : dropSilentAfterFirst p.parts with
  | nil => rw [hdrop] at h; cases h
  | cons part parts =>
    rw [hdrop] at h
    exact ⟨List.cons_ne_nil part parts, (Option.some.inj h).symm⟩

theorem components_parent?_of_relative (hp : p.isAbsolute = false) (h : p.parent? = some q) :
    q.components = p.components.dropLast := by
  obtain ⟨hne, rfl⟩ := parent?_of_relative hp h
  cases hcut : p.parts with
  | nil => exact absurd hcut (parts_ne_nil p)
  | cons first rest =>
    have hcomponents : p.components = (firstComponent? first).toList ++ rest.filterMap laterComponent? := by
      rw [components, hcut]
      dsimp only
      rw [if_neg (by simp [hp])]
    rw [hcut, dropSilentAfterFirst_cons] at hne
    rw [dropSilentAfterFirst_cons, hcomponents]
    by_cases hrest : dropSilent rest = []
    · -- the first part is the only one that counts
      cases hc : firstComponent? first with
      | none => exact absurd (if_pos ⟨hrest, hc⟩) hne
      | some c =>
        rw [if_neg (by simp), hrest, filterMap_eq_nil_iff.mpr hrest]
        rfl
    · have hlater : rest.filterMap laterComponent? ≠ [] := fun h => hrest (filterMap_eq_nil_iff.mp h)
      have hslash : ∀ part ∈ first :: (dropSilent rest).dropLast, '/' ∉ part := by
        intro part hpart
        apply not_mem_of_mem_parts (p := p)
        rw [hcut]
        rcases List.mem_cons.mp hpart with rfl | hpart
        · exact List.mem_cons_self
        · exact List.mem_cons_of_mem first (mem_of_mem_dropSilent (List.dropLast_subset _ hpart))
      have hfirst : first ≠ [] := by
        apply first_ne_nil_of_relative hp hcut
        rintro rfl
        exact hrest rfl
      rw [if_neg (fun h => hrest h.1), List.dropLast_cons_of_ne_nil hrest,
        components_dropSilentAfterFirst hslash (fun h => absurd h hfirst), filterMap_dropLast_dropSilent hrest,
        List.dropLast_append_of_ne_nil hlater]

/-- The parent has all components but the last. -/
theorem components_parent? (h : p.parent? = some q) : q.components = p.components.dropLast := by
  cases hp : p.isAbsolute with
  | true => exact components_parent?_of_isAbsolute hp h
  | false => exact components_parent?_of_relative hp h

theorem components_of_mem_ancestors (h : q ∈ p.ancestors) : q.components <+: p.components := by
  unfold ancestors at h
  generalize p.components.length = n at h
  induction n generalizing p with
  | zero =>
    obtain rfl := List.mem_singleton.mp h
    exact List.prefix_refl _
  | succ n ih =>
    rcases List.mem_cons.mp h with rfl | h
    · exact List.prefix_refl _
    · cases hparent : p.parent? with
      | none => rw [hparent] at h; cases h
      | some parent =>
        rw [hparent] at h
        have hup := ih h
        rw [components_parent? hparent] at hup
        exact hup.trans (List.dropLast_prefix p.components)

/-! ## The text of the parent -/

theorem dropSilent_isPrefix (parts : List (List Char)) : dropSilent parts <+: parts := by
  rw [dropSilent_eq_rdropWhile]
  exact List.rdropWhile_prefix _ _

theorem dropSilentAfterFirst_isPrefix (parts : List (List Char)) : dropSilentAfterFirst parts <+: parts := by
  cases parts with
  | nil => exact List.prefix_refl []
  | cons first rest =>
    rw [dropSilentAfterFirst_cons]
    split
    · exact List.nil_prefix
    · exact (List.prefix_cons_inj first).mpr (dropSilent_isPrefix rest)

theorem chars_ofParts (parts : List (List Char)) : (ofParts parts).chars = Text.join ['/'] parts := by
  simp [ofParts, chars]

/-- The parent is cut off from the text of the path. -/
theorem chars_parent?_isPrefix (h : p.parent? = some q) : q.chars <+: p.chars := by
  have hjoin : Text.join ['/'] p.parts = p.chars := Text.join_pieces '/' p.chars
  cases hp : p.isAbsolute with
  | true =>
    obtain ⟨-, rfl⟩ := parent?_of_isAbsolute hp h
    unfold isAbsolute at hp
    cases hcs : p.chars with
    | nil => simp [hcs] at hp
    | cons c cs =>
      obtain rfl : c = '/' := by simpa [hcs] using hp
      have htail : p.parts.tail = Text.pieces '/' cs := by simp [Path.parts, hcs, Text.pieces]
      have hcut : dropSilent (dropSilent p.parts.tail).dropLast <+: Text.pieces '/' cs := by
        rw [← htail]
        exact (dropSilent_isPrefix _).trans ((List.dropLast_prefix _).trans (dropSilent_isPrefix _))
      have hjoined := Text.join_isPrefix ['/'] hcut
      rw [Text.join_pieces, ← chars_ofParts] at hjoined
      have hchars : ∀ r : Path, (Path.mk ("/" ++ r.text)).chars = '/' :: r.chars := by
        intro r
        simp [chars, String.toList_append]
      rw [hchars]
      exact (List.prefix_cons_inj '/').mpr hjoined
  | false =>
    obtain ⟨-, rfl⟩ := parent?_of_relative hp h
    rw [chars_ofParts, ← hjoin]
    apply Text.join_isPrefix
    exact (dropSilentAfterFirst_isPrefix _).trans ((List.dropLast_prefix _).trans (dropSilentAfterFirst_isPrefix _))

theorem isAbsolute_parent? (h : p.parent? = some q) (hq : q.isEmpty = false) : q.isAbsolute = p.isAbsolute := by
  obtain ⟨rest, hrest⟩ := chars_parent?_isPrefix h
  unfold isAbsolute
  unfold isEmpty at hq
  rw [← hrest]
  cases hcs : q.chars with
  | nil => simp [hcs] at hq
  | cons c cs => rfl

theorem isEmpty_of_parent? (h : p.parent? = some q) : p.isEmpty = false := by
  by_contra hempty
  have htext : p.text = "" := by simpa [isEmpty, chars] using hempty
  have hp : p = ⟨""⟩ := congrArg Path.mk htext
  subst hp
  have hnone : (Path.mk "").parent? = none := by decide
  simp [hnone] at h

end Path

end ScriptInclude
