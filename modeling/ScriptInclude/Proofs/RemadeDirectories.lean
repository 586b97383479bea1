import ScriptInclude.Proofs.EqualPaths
import ScriptInclude.Proofs.MadeDirectories
import ScriptInclude.Proofs.Parents

/-!
# Making directories again

Making directories goes up to a directory that stands and then down again, and may stop anywhere on the way. Where
it came through, all of them stand and there is nothing left to be made. Where it stopped, it stops again: what
cannot be made keeps all longer paths from being made, and what was made before stands already.
-/

namespace ScriptInclude

namespace FileTree

variable {t t' : FileTree} {follow : Bool} {links : Nat} {here : Location} {xs ys : List String} {p q : Path}
  {ps below before after : List Path}

/-! ## Paths of directories -/

theorem walk_of_enter (follow : Bool) {r : Nat × Location} (h : enter t links here xs = .ok r) :
    ∃ loc e, walk t follow links here xs = .ok (.present loc e) := by
  fun_induction enter t links here xs with
  | case1 => exact ⟨_, _, walk_nil⟩
  | case2 links here part rest hp ih =>
    rw [walk_silent hp]
    exact ih h
  | case3 links here rest hp ih =>
    rw [walk_up]
    exact ih h
  | case4 | case5 | case7 | case8 => cases h
  | case6 links here part rest hp hup hshort hl ih =>
    rw [walk_directory ⟨hp, hup⟩ hshort hl]
    exact ih h
  | case9 here part rest hp hup hshort target hl links ih =>
    rw [walk_link_succ ⟨hp, hup⟩ hshort hl]
    split
    · exact ⟨_, _, rfl⟩
    · exact ih h

theorem enter_of_isPrefix (h : xs <+: ys) {r : Nat × Location} (he : enter t links here ys = .ok r) :
    ∃ r', enter t links here xs = .ok r' := by
  obtain ⟨rest, rfl⟩ := h
  obtain ⟨left, there, hxs, -⟩ := enter_append_eq_ok.mp he
  exact ⟨(left, there), hxs⟩

theorem isDirectory_iff : t.isDirectory here p = true ↔
    usable p = .ok () ∧ ∃ r, enter t maxLinks (start p here) (steps p) = .ok r := by
  have hlocate : t.isDirectory here p = true ↔ ∃ loc, locate t here p = .ok (.present loc .directory) := by
    unfold isDirectory found?
    split
    · next loc e hl => simp [hl]
    · next hl =>
      simp only [reduceCtorEq, beq_iff_eq, false_iff, not_exists]
      exact fun loc hloc => hl loc .directory hloc
  have hdirectory : ∀ loc, locate t here p = .ok (.present loc .directory) ↔
      usable p = .ok () ∧ ∃ left, enter t maxLinks (start p here) (steps p) = .ok (left, loc) := by
    intro loc
    rw [← walk_eq_directory_iff, locate_eq]
    cases usable p <;> simp [Except.bind]
  rw [hlocate]
  simp only [hdirectory]
  constructor
  · intro h
    obtain ⟨loc, hu, left, he⟩ := h
    exact ⟨hu, (left, loc), he⟩
  · intro h
    obtain ⟨hu, r, he⟩ := h
    exact ⟨r.2, hu, r.1, he⟩

theorem isDirectory_of_keeps (hkeeps : Keeps t t') (h : t.isDirectory here p = true) :
    t'.isDirectory here p = true := by
  obtain ⟨hu, r, he⟩ := isDirectory_iff.mp h
  exact isDirectory_iff.mpr ⟨hu, r, enter_of_keeps hkeeps he⟩

theorem makeDirectory_of_isDirectory (h : t.isDirectory here p = true) :
    t.makeDirectory here p = .error .alreadyExists := by
  obtain ⟨hu, r, he⟩ := isDirectory_iff.mp h
  obtain ⟨silents, -, hsteps⟩ := steps_split p
  rw [hsteps] at he
  obtain ⟨left, there, he, -⟩ := enter_append_eq_ok.mp he
  obtain ⟨loc, e, hw⟩ := walk_of_enter false he
  have hlocate : locateEntry t here p = .ok (.present loc e) := bind_eq_ok.mpr ⟨(), hu, hw⟩
  unfold makeDirectory
  rw [hlocate]
  rfl

/-! ## What a directory stands on -/

/-- A directory is there, or the path is empty and asks for none. -/
def Stands (t : FileTree) (here : Location) (p : Path) : Prop := p.isEmpty = true ∨ t.isDirectory here p = true

theorem Stands.of_keeps (hkeeps : Keeps t t') (h : Stands t here p) : Stands t' here p := by
  rcases h with h | h
  · exact Or.inl h
  · exact Or.inr (isDirectory_of_keeps hkeeps h)

theorem step?_of_mem_tail {c : Path.Component} (h : c ∈ p.components.tail) : ∃ s, step? c = some s := by
  -- what is no first component is the component of a part
  have hlater : ∃ part, Path.laterComponent? part = some c := by
    rw [Path.components_eq] at h
    cases hparts : p.parts with
    | nil => simp [hparts, Path.componentsOf] at h
    | cons first rest =>
      have hmem : c ∈ rest.filterMap Path.laterComponent? := by
        rw [hparts, Path.componentsOf] at h
        cases habs : p.isAbsolute with
        | true => simpa [habs] using h
        | false =>
          cases hfirst : Path.firstComponent? first with
          | none => exact List.mem_of_mem_tail (by simpa [habs, hfirst] using h)
          | some d => simpa [habs, hfirst] using h
      obtain ⟨part, -, hpart⟩ := List.mem_filterMap.mp hmem
      exact ⟨part, hpart⟩
  obtain ⟨part, hpart⟩ := hlater
  unfold Path.laterComponent? at hpart
  split at hpart
  · cases hpart
  · split at hpart <;> cases hpart <;> exact ⟨_, rfl⟩

theorem spoken_parent? (h : p.parent? = some q) : spoken (steps q) = (spoken (steps p)).dropLast := by
  rw [spoken_steps, spoken_steps, Path.components_parent? h]
  rcases List.eq_nil_or_concat p.components with hnil | ⟨init, c, hc⟩
  · simp [hnil]
  · rw [hc, List.concat_eq_append, List.dropLast_concat, List.filterMap_append]
    cases init with
    | nil => cases c <;> simp [List.filterMap_cons]
    | cons first init =>
      obtain ⟨s, hs⟩ : ∃ s, step? c = some s := by
        apply step?_of_mem_tail (p := p)
        simp [hc]
      simp [hs]

theorem usable_of_isPrefix (hu : usable p = .ok ()) (h : q.chars <+: p.chars) (hq : q.isEmpty = false) :
    usable q = .ok () := by
  obtain ⟨-, hzero, hshort⟩ := usable_eq_ok.mp hu
  obtain ⟨rest, hrest⟩ := h
  have htext : p.text = q.text ++ String.ofList rest := by
    rw [← String.toList_inj, String.toList_append, String.toList_ofList]
    exact hrest.symm
  rw [htext, String.utf8ByteSize_append] at hshort
  refine usable_eq_ok.mpr ⟨hq, ?_, by omega⟩
  intro hmem
  apply hzero
  rw [← hrest]
  exact List.mem_append_left rest hmem

theorem stands_of_enter (h : p.parent? = some q) (hu : usable p = .ok ()) (hsteps : spoken (steps q) <+: spoken xs)
    {r : Nat × Location} (he : enter t maxLinks (start p here) xs = .ok r) : Stands t here q := by
  cases hq : q.isEmpty with
  | true => exact Or.inl hq
  | false =>
    have hstart : start q here = start p here := by rw [start, start, Path.isAbsolute_parent? h hq]
    rw [← enter_spoken] at he
    obtain ⟨r', he'⟩ := enter_of_isPrefix hsteps he
    rw [enter_spoken] at he'
    refine Or.inr (isDirectory_iff.mpr ⟨usable_of_isPrefix hu (Path.chars_parent?_isPrefix h) hq, r', ?_⟩)
    rw [hstart]
    exact he'

theorem stands_parent?_of_isDirectory (h : p.parent? = some q) (hp : t.isDirectory here p = true) :
    Stands t here q := by
  obtain ⟨hu, r, he⟩ := isDirectory_iff.mp hp
  refine stands_of_enter h hu ?_ he
  rw [spoken_parent? h]
  exact List.dropLast_prefix _

theorem isEntryName_of_walk_eq_vacant {part : String} {parent : Location} {name : String}
    (hw : walk t follow links here [part] = .ok (.vacant parent name)) : IsEntryName part := by
  constructor
  · intro h
    simp [walk_silent h] at hw
  · intro h
    simp [h, walk_up] at hw

/-- A directory is made only where its parent stands. -/
theorem stands_parent?_of_makeDirectory (h : p.parent? = some q) (hmake : t.makeDirectory here p = .ok t') :
    Stands t here q := by
  unfold makeDirectory at hmake
  obtain ⟨spot, hspot, hmake⟩ := bind_eq_ok.mp hmake
  cases spot with
  | present loc e => cases hmake
  | vacant parent name =>
    obtain ⟨u, hu, hw⟩ := bind_eq_ok.mp hspot
    obtain ⟨silents, hsilent, hsteps⟩ := steps_split p
    rcases List.eq_nil_or_concat ((steps p).reverse.dropWhile (· = "")).reverse with hnil | ⟨init, x, hx⟩
    · rw [hnil, walk_nil] at hw
      cases hw
    · rw [hx, List.concat_eq_append] at hw hsteps
      obtain ⟨left, there, he, hlast⟩ := (walk_append_eq_ok (List.cons_ne_nil x [])).mp hw
      have hname : IsEntryName x := isEntryName_of_walk_eq_vacant hlast
      have hnone : spoken silents = [] := by
        apply List.filter_eq_nil_iff.mpr
        intro y hy
        rw [hsilent y hy]
        decide
      have hspoken : spoken (steps p) = spoken init ++ [x] := by
        have hx : spoken [x] = [x] := spoken_cons hname.not_silent
        rw [hsteps, spoken_append, spoken_append, hx, hnone, List.append_nil]
      have hparent : spoken (steps q) = spoken init := by rw [spoken_parent? h, hspoken, List.dropLast_concat]
      exact stands_of_enter h hu ⟨[], by rw [hparent, List.append_nil]⟩ he

/-! ## Ancestors -/

/-- A directory is there, or can be made. -/
def Reached (t : FileTree) (here : Location) (p : Path) : Prop :=
  t.isDirectory here p = true ∨ ∃ t', t.makeDirectory here p = .ok t'

/-- Each path asks for something, and leads to a directory only where all later ones stand. -/
def Rises (t : FileTree) (here : Location) (ps : List Path) : Prop :=
  ps.Pairwise fun p q => p.isEmpty = false ∧ (Reached t here p → Stands t here q)

theorem Reached.stands_parent? (hp : Reached t here p) (h : p.parent? = some q) : Stands t here q := by
  rcases hp with hthere | ⟨t', hmake⟩
  · exact stands_parent?_of_isDirectory h hthere
  · exact stands_parent?_of_makeDirectory h hmake

theorem Stands.parent? (hp : Stands t here p) (h : p.parent? = some q) : Stands t here q := by
  rcases hp with hempty | hthere
  · rw [Path.isEmpty_of_parent? h] at hempty
    cases hempty
  · exact stands_parent?_of_isDirectory h hthere

theorem Stands.of_mem_go {n : Nat} (hp : Stands t here p) (hq : q ∈ Path.ancestors.go n p) : Stands t here q := by
  induction n generalizing p with
  | zero =>
    obtain rfl := List.mem_singleton.mp hq
    exact hp
  | succ n ih =>
    rcases List.mem_cons.mp hq with rfl | hq
    · exact hp
    · cases hparent : p.parent? with
      | none =>
        rw [hparent] at hq
        cases hq
      | some parent =>
        rw [hparent] at hq
        exact ih (hp.parent? hparent) hq

theorem rises_go (t : FileTree) (here : Location) (n : Nat) (p : Path) : Rises t here (Path.ancestors.go n p) := by
  induction n generalizing p with
  | zero => exact List.pairwise_singleton _ p
  | succ n ih =>
    unfold Path.ancestors.go
    cases hparent : p.parent? with
    | none => exact List.pairwise_singleton _ p
    | some parent =>
      refine List.pairwise_cons.mpr ⟨?_, ih parent⟩
      intro q hq
      refine ⟨Path.isEmpty_of_parent? hparent, ?_⟩
      intro hp
      exact (hp.stands_parent? hparent).of_mem_go hq

theorem rises_ancestors (t : FileTree) (here : Location) (p : Path) : Rises t here p.ancestors :=
  rises_go t here _ p

theorem head?_ancestors (p : Path) : p.ancestors.head? = some p := by
  unfold Path.ancestors
  cases p.components.length <;> rfl

/-! ## Coming through -/

theorem isDirectory_of_makeDirectory (h : t.makeDirectory here p = .ok t') : t'.isDirectory here p = true := by
  obtain ⟨place, -, -, -, hled⟩ := makeDirectory_eq_ok h
  simp [isDirectory, found?, hled]

theorem keeps_of_makeEach {r : Except FileError Unit} (h : t.makeEach here ps = (t', r)) : Keeps t t' := by
  have hmakes := makes_makeEach t here ps
  rw [h] at hmakes
  exact hmakes.keeps

/-- On the way down there is a directory at the next path, or one that cannot be made. -/
theorem makeEach_cons_cases (t : FileTree) (here : Location) (p : Path) (ps : List Path) :
    (∃ t₁ : FileTree, t₁.isDirectory here p = true ∧ t.makeEach here (p :: ps) = t₁.makeEach here ps) ∨
      ∃ e, t.makeDirectory here p = .error e ∧ t.isDirectory here p = false ∧
        t.makeEach here (p :: ps) = (t, .error e) := by
  rw [makeEach]
  cases hmake : t.makeDirectory here p with
  | ok t₁ => exact Or.inl ⟨t₁, isDirectory_of_makeDirectory hmake, rfl⟩
  | error e =>
    by_cases hthere : t.isDirectory here p = true
    · exact Or.inl ⟨t, hthere, if_pos hthere⟩
    · exact Or.inr ⟨e, rfl, by simpa using hthere, if_neg hthere⟩

/-- On the way up the turn is at a directory; else it goes on to the parent, or ends at what is no directory. -/
theorem makeUpward_cons_cases (t : FileTree) (here : Location) (below : List Path) (p : Path) (ps : List Path) :
    (∃ t₁, Stands t₁ here p ∧ t.makeUpward here below (p :: ps) = t₁.makeEach here below) ∨
      p.isEmpty = false ∧
        (t.makeUpward here below (p :: ps) = t.makeUpward here (p :: below) ps ∨
          ∃ e, e ≠ .notFound ∧ t.makeDirectory here p = .error e ∧ t.isDirectory here p = false ∧
            t.makeUpward here below (p :: ps) = (t, .error e)) := by
  rw [makeUpward]
  by_cases hempty : p.isEmpty = true
  · exact Or.inl ⟨t, Or.inl hempty, if_pos hempty⟩
  · rw [if_neg hempty]
    cases hmake : t.makeDirectory here p with
    | ok t₁ => exact Or.inl ⟨t₁, Or.inr (isDirectory_of_makeDirectory hmake), rfl⟩
    | error e =>
      by_cases hfound : e = .notFound
      · subst hfound
        exact Or.inr ⟨by simpa using hempty, Or.inl rfl⟩
      · by_cases hthere : t.isDirectory here p = true
        · exact Or.inl ⟨t, Or.inr hthere, by simp [hthere]⟩
        · exact Or.inr ⟨by simpa using hempty, Or.inr ⟨e, hfound, rfl, by simpa using hthere, by simp [hthere]⟩⟩

theorem isDirectory_of_makeEach (h : t.makeEach here ps = (t', .ok ())) : ∀ p ∈ ps, t'.isDirectory here p = true := by
  induction ps generalizing t with
  | nil => simp
  | cons p ps ih =>
    rcases makeEach_cons_cases t here p ps with ⟨t₁, hthere, heq⟩ | ⟨e, -, -, heq⟩
    · rw [heq] at h
      exact List.forall_mem_cons.mpr ⟨isDirectory_of_keeps (keeps_of_makeEach h) hthere, ih h⟩
    · rw [heq] at h
      cases h

theorem stands_of_makeUpward (h : t.makeUpward here below ps = (t', .ok ())) :
    (∀ p ∈ below, t'.isDirectory here p = true) ∧ ∀ p ∈ ps.head?, Stands t' here p := by
  induction ps generalizing below with
  | nil => exact ⟨isDirectory_of_makeEach h, by simp⟩
  | cons p ps ih =>
    rcases makeUpward_cons_cases t here below p ps with ⟨t₁, hstands, heq⟩ | ⟨-, heq | ⟨e, -, -, -, heq⟩⟩
    · rw [heq] at h
      simpa using ⟨isDirectory_of_makeEach h, hstands.of_keeps (keeps_of_makeEach h)⟩
    · rw [heq] at h
      obtain ⟨hp, hbelow⟩ := List.forall_mem_cons.mp (ih h).1
      simpa using ⟨hbelow, Or.inr hp⟩
    · rw [heq] at h
      cases h

/-- Going up ends at once where there is nothing to make. -/
theorem makeUpward_of_stands (h : ∀ p ∈ ps.head?, Stands t here p) :
    t.makeUpward here below ps = t.makeEach here below := by
  cases ps with
  | nil => rfl
  | cons p ps =>
    unfold makeUpward
    rcases h p (by simp) with hempty | hthere
    · rw [if_pos hempty]
    · rw [makeDirectory_of_isDirectory hthere]
      simp [hthere]

/-! ## Being stopped -/

/-- No directory is at `q`, none can be made there, and going on up from it is of no help. -/
structure Blocked (t : FileTree) (here : Location) (q : Path) (e : FileError) (parents : List Path) : Prop where
  isEmpty : q.isEmpty = false
  makeDirectory : t.makeDirectory here q = .error e
  isDirectory : t.isDirectory here q = false
  parents : e ≠ .notFound ∨ ∀ p ∈ parents.head?, Stands t here p

namespace Blocked

variable {e : FileError} {parents : List Path}

theorem makeEach_eq (h : Blocked t here q e parents) (below : List Path) :
    t.makeEach here (q :: below) = (t, .error e) := by
  simp [makeEach, h.makeDirectory, h.isDirectory]

theorem not_stands (h : Blocked t here q e parents) : ¬ Stands t here q := by
  simp [Stands, h.isEmpty, h.isDirectory]

theorem makeUpward_eq (h : Blocked t here q e parents) (below : List Path) :
    t.makeUpward here below (q :: parents) = (t, .error e) := by
  unfold makeUpward
  rw [if_neg (by simp [h.isEmpty]), h.makeDirectory]
  by_cases hfound : e = .notFound
  · subst hfound
    have hstands : ∀ p ∈ parents.head?, Stands t here p := by simpa using h.parents
    exact (makeUpward_of_stands hstands).trans (h.makeEach_eq below)
  · simp [h.isDirectory]

/-- What is blocked blocks all paths that lead there. -/
theorem exists_makeUpward_eq (h : Blocked t here q e parents) (hrises : Rises t here (before ++ q :: parents))
    (below : List Path) : ∃ e', t.makeUpward here below (before ++ q :: parents) = (t, .error e') := by
  induction before generalizing below with
  | nil => exact ⟨e, h.makeUpward_eq below⟩
  | cons p before ih =>
    obtain ⟨hp, hrises⟩ := List.pairwise_cons.mp hrises
    obtain ⟨hne, hreached⟩ := hp q (by simp)
    have hnot : ¬ Reached t here p := fun hp => h.not_stands (hreached hp)
    have hthere : ¬ t.isDirectory here p = true := fun hp => hnot (Or.inl hp)
    rw [List.cons_append, makeUpward, if_neg (by simp [hne])]
    cases hmake : t.makeDirectory here p with
    | ok t' => exact absurd (Or.inr ⟨t', hmake⟩) hnot
    | error e' =>
      by_cases hfound : e' = .notFound
      · subst hfound
        exact ih hrises (p :: below)
      · simp [hthere]

end Blocked

variable {e : FileError}

theorem blocked_of_makeEach (parents : List Path) (h : t.makeEach here ps = (t', .error e))
    (hps : ∀ p ∈ ps, p.isEmpty = false) (hparents : ∀ p ∈ parents.head?, Stands t here p) :
    ∃ before q after, ps = before ++ q :: after ∧ Blocked t' here q e (before.reverse ++ parents) := by
  induction ps generalizing t parents with
  | nil => cases h
  | cons p ps ih =>
    obtain ⟨hp, hps⟩ := List.forall_mem_cons.mp hps
    rcases makeEach_cons_cases t here p ps with ⟨t₁, hthere, heq⟩ | ⟨e', hmake, hthere, heq⟩
    · rw [heq] at h
      have hstands : Stands t₁ here p := Or.inr hthere
      obtain ⟨before, q, after, rfl, hblocked⟩ := ih (p :: parents) h hps (by simpa using hstands)
      exact ⟨p :: before, q, after, rfl, by simpa using hblocked⟩
    · rw [heq] at h
      cases h
      exact ⟨[], p, ps, rfl, hp, hmake, hthere, Or.inr hparents⟩

theorem blocked_of_makeUpward (h : t.makeUpward here below ps = (t', .error e))
    (hbelow : ∀ p ∈ below, p.isEmpty = false) :
    ∃ before q after, below.reverse ++ ps = before ++ q :: after ∧ Blocked t' here q e after := by
  induction ps generalizing below with
  | nil =>
    obtain ⟨before, q, after, rfl, hblocked⟩ := blocked_of_makeEach [] h hbelow (by simp)
    exact ⟨after.reverse, q, before.reverse, by simp, by simpa using hblocked⟩
  | cons p ps ih =>
    rcases makeUpward_cons_cases t here below p ps with ⟨t₁, hstands, heq⟩ | ⟨hp, heq | ⟨e', hfound, hmake, hthere, heq⟩⟩
    · rw [heq] at h
      obtain ⟨before, q, after, rfl, hblocked⟩ := blocked_of_makeEach (p :: ps) h hbelow (by simpa using hstands)
      exact ⟨after.reverse, q, before.reverse ++ p :: ps, by simp, hblocked⟩
    · -- one path goes over from those above to those below, and the whole list stays
      rw [heq] at h
      obtain ⟨before, q, after, hsplit, hblocked⟩ := ih h (List.forall_mem_cons.mpr ⟨hp, hbelow⟩)
      exact ⟨before, q, after, by simpa using hsplit, hblocked⟩
    · rw [heq] at h
      cases h
      exact ⟨below.reverse, p, ps, rfl, hp, hmake, hthere, Or.inl hfound⟩

/-! ## Twice -/

theorem stands_of_makeDirectories (h : t.makeDirectories here p = (t', .ok ())) : Stands t' here p :=
  (stands_of_makeUpward h).2 p (head?_ancestors p)

theorem makeDirectories_of_stands (h : Stands t here p) : t.makeDirectories here p = (t, .ok ()) := by
  refine makeUpward_of_stands ?_
  simpa [head?_ancestors] using h

/-- Where making directories was stopped, it is stopped again, and nothing more is made. -/
theorem makeDirectories_of_error (h : t.makeDirectories here p = (t', .error e)) :
    ∃ e', t'.makeDirectories here p = (t', .error e') := by
  obtain ⟨before, q, after, hsplit, hblocked⟩ := blocked_of_makeUpward h (by simp)
  have hancestors : p.ancestors = before ++ q :: after := by simpa using hsplit
  unfold makeDirectories
  rw [hancestors]
  apply hblocked.exists_makeUpward_eq
  rw [← hancestors]
  exact rises_ancestors t' here p

end FileTree

end ScriptInclude
