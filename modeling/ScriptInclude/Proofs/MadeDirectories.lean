import Mathlib.Data.List.TakeWhile
import ScriptInclude.Proofs.Writing

/-!
# Making directories

A directory is made where a path finds a free name. All that stood in the tree before stands there afterwards,
so a way that led to a directory leads to it for good, and each directory that was made is found by the path it
was made for.
-/

namespace ScriptInclude

namespace FileTree

variable {t t' t'' : FileTree} {follow : Bool} {links : Nat} {here place : Location} {xs : List String} {p : Path}

/-! ## Trees that grow -/

/-- All directories and links of one tree stand in another. -/
def Keeps (t t' : FileTree) : Prop :=
  ∀ loc e, t.lookup? loc = some e → (∀ b, e ≠ .file b) → t'.lookup? loc = some e

theorem Keeps.directory (h : Keeps t t') {loc : Location} (hl : t.lookup? loc = some .directory) :
    t'.lookup? loc = some .directory := h loc .directory hl (by simp)

theorem Keeps.link (h : Keeps t t') {loc : Location} {target : String} (hl : t.lookup? loc = some (.link target)) :
    t'.lookup? loc = some (.link target) := h loc (.link target) hl (by simp)

/-- A directory that can be entered can be entered by the same way later. -/
theorem enter_of_keeps (h : Keeps t t') {r : Nat × Location} (he : enter t links here xs = .ok r) :
    enter t' links here xs = .ok r := by
  fun_induction enter t links here xs with
  | case1 => rw [enter_nil, ← he]
  | case2 links here part rest hp ih => rw [enter_silent hp, ih he]
  | case3 links here rest hp ih => rw [enter_up, ih he]
  | case4 | case5 | case7 | case8 => cases he
  | case6 links here part rest hp hup hshort hl ih =>
    rw [enter, if_neg hp, if_neg hup, if_neg hshort, h.directory hl]
    exact ih he
  | case9 here part rest hp hup hshort target hl links ih =>
    rw [enter, if_neg hp, if_neg hup, if_neg hshort, h.link hl]
    exact ih he

theorem locate_of_keeps (h : Keeps t t') {loc : Location} (hl : locate t here p = .ok (.present loc .directory)) :
    locate t' here p = .ok (.present loc .directory) := by
  rw [locate_eq, bind_eq_ok] at hl ⊢
  obtain ⟨u, hu, hw⟩ := hl
  obtain ⟨left, he⟩ := walk_eq_directory_iff.mp hw
  exact ⟨u, hu, walk_eq_directory_iff.mpr ⟨left, enter_of_keeps h he⟩⟩

theorem keeps_put (hroot : place ≠ []) (hdir : t.lookup? place ≠ some .directory)
    (hlink : ∀ target, t.lookup? place ≠ some (.link target)) (n : Entry) : Keeps t (t.put place n) := by
  intro loc e hl he
  rw [lookup?_put t place n loc hroot, if_neg ?_]
  · exact hl
  · rintro rfl
    cases e with
    | directory => exact hdir hl
    | link target => exact hlink target hl
    | file b => exact he b rfl

/-! ## Making directories -/

/-- A free name at the end of a walk is entered once a directory stands there. -/
theorem walk_vacant {parent : Location} {name : String}
    (h : walk t follow links here xs = .ok (.vacant parent name)) :
    t.lookup? (parent ++ [name]) = none ∧
      ∀ t', Keeps t t' → t'.lookup? (parent ++ [name]) = some .directory →
        ∃ left, enter t' links here xs = .ok (left, parent ++ [name]) := by
  fun_induction enter t links here xs with
  | case1 =>
    rw [walk_nil] at h
    cases h
  | case2 links here part rest hp ih =>
    rw [walk_silent hp] at h
    simpa only [enter_silent hp] using ih h
  | case3 links here rest hp ih =>
    rw [walk_up] at h
    simpa only [enter_up] using ih h
  | case4 links here part rest hp hup hlong =>
    rw [walk_tooLong ⟨hp, hup⟩ hlong] at h
    cases h
  | case5 links here part rest hp hup hshort hl =>
    rw [walk_none ⟨hp, hup⟩ hshort hl] at h
    split at h
    · next hrest =>
      cases h
      refine ⟨hl, ?_⟩
      intro t' _ hnew
      rw [enter, if_neg hp, if_neg hup, if_neg hshort, hnew, hrest]
      exact ⟨links, enter_nil⟩
    · cases h
  | case6 links here part rest hp hup hshort hl ih =>
    rw [walk_directory ⟨hp, hup⟩ hshort hl] at h
    obtain ⟨hfree, henter⟩ := ih h
    refine ⟨hfree, ?_⟩
    intro t' hkeeps hnew
    rw [enter, if_neg hp, if_neg hup, if_neg hshort, hkeeps.directory hl]
    exact henter t' hkeeps hnew
  | case7 links here part rest hp hup hshort b hl =>
    rw [walk_file ⟨hp, hup⟩ hshort hl] at h
    split at h
    · cases h
    · cases h
  | case8 here part rest hp hup hshort target hl =>
    rw [walk_link_zero ⟨hp, hup⟩ hshort hl] at h
    split at h
    · cases h
    · cases h
  | case9 here part rest hp hup hshort target hl links ih =>
    rw [walk_link_succ ⟨hp, hup⟩ hshort hl] at h
    split at h
    · cases h
    · obtain ⟨hfree, henter⟩ := ih h
      refine ⟨hfree, ?_⟩
      intro t' hkeeps hnew
      rw [enter, if_neg hp, if_neg hup, if_neg hshort, hkeeps.link hl]
      exact henter t' hkeeps hnew

theorem enter_silents {ys : List String} (h : ∀ y ∈ ys, y = "") : enter t links here ys = .ok (links, here) := by
  induction ys with
  | nil => exact enter_nil
  | cons y ys ih =>
    obtain ⟨rfl, hys⟩ := List.forall_mem_cons.mp h
    rw [enter_silent (by decide), ih hys]

theorem steps_split (p : Path) :
    ∃ silents, (∀ y ∈ silents, y = "") ∧ steps p = ((steps p).reverse.dropWhile (· = "")).reverse ++ silents := by
  refine ⟨((steps p).reverse.takeWhile (· = "")).reverse, ?_, ?_⟩
  · intro y hy
    simpa using List.mem_takeWhile_imp (List.mem_reverse.mp hy)
  · rw [← List.reverse_append, List.takeWhile_append_dropWhile, List.reverse_reverse]

/-- A directory is made where the path finds a free name, and the path leads to it from then on. -/
theorem makeDirectory_eq_ok (h : t.makeDirectory here p = .ok t') :
    ∃ place, place ≠ [] ∧ t.lookup? place = none ∧ t' = t.put place .directory ∧
      locate t' here p = .ok (.present place .directory) := by
  unfold makeDirectory at h
  obtain ⟨spot, hspot, h⟩ := bind_eq_ok.mp h
  cases spot with
  | present loc e => cases h
  | vacant parent name =>
    cases h
    obtain ⟨u, hu, hw⟩ := bind_eq_ok.mp hspot
    obtain ⟨hfree, henter⟩ := walk_vacant hw
    have hroot : parent ++ [name] ≠ [] := by simp
    have hkeeps : Keeps t (t.put (parent ++ [name]) .directory) :=
      keeps_put hroot (by simp [hfree]) (by simp [hfree]) .directory
    obtain ⟨left, he⟩ := henter _ hkeeps ((lookup?_put t _ _ _ hroot).trans (if_pos rfl))
    refine ⟨parent ++ [name], hroot, hfree, rfl, ?_⟩
    rw [locate_eq, hu]
    apply walk_eq_directory_iff.mpr
    refine ⟨left, ?_⟩
    -- the slashes at the end of the path stay in the new directory
    obtain ⟨silents, hsilent, hsteps⟩ := steps_split p
    rw [hsteps]
    exact enter_append_eq_ok.mpr ⟨left, _, he, enter_silents hsilent⟩

/-- Nothing has changed but that directories stand where names were free, each where one of the paths leads. -/
def Makes (here : Location) (paths : List Path) (t t' : FileTree) : Prop :=
  ∀ loc, t'.lookup? loc = t.lookup? loc ∨
    t.lookup? loc = none ∧ t'.lookup? loc = some .directory ∧
      ∃ p ∈ paths, locate t' here p = .ok (.present loc .directory)

namespace Makes

variable {paths paths' : List Path}

theorem refl (here : Location) (paths : List Path) (t : FileTree) : Makes here paths t t := fun _ => Or.inl rfl

theorem keeps (h : Makes here paths t t') : Keeps t t' := by
  intro loc e hl _
  rcases h loc with hsame | ⟨hfree, -, -⟩
  · exact hsame.trans hl
  · rw [hfree] at hl
    cases hl

theorem trans (h₁ : Makes here paths t t') (h₂ : Makes here paths t' t'') : Makes here paths t t'' := by
  intro loc
  rcases h₂ loc with hsame | ⟨hfree, hnew, hled⟩
  · rcases h₁ loc with hsame' | ⟨hfree', hnew', p, hp, hled'⟩
    · exact Or.inl (hsame.trans hsame')
    · exact Or.inr ⟨hfree', hsame.trans hnew', p, hp, locate_of_keeps h₂.keeps hled'⟩
  · rcases h₁ loc with hsame' | ⟨-, hnew', -⟩
    · exact Or.inr ⟨hsame'.symm.trans hfree, hnew, hled⟩
    · rw [hnew'] at hfree
      cases hfree

theorem mono (h : Makes here paths t t') (hsub : ∀ p ∈ paths, p ∈ paths') : Makes here paths' t t' := by
  intro loc
  rcases h loc with hsame | ⟨hfree, hnew, p, hp, hled⟩
  · exact Or.inl hsame
  · exact Or.inr ⟨hfree, hnew, p, hsub p hp, hled⟩

end Makes

theorem makes_makeDirectory (h : t.makeDirectory here p = .ok t') : Makes here [p] t t' := by
  obtain ⟨place, hroot, hfree, rfl, hled⟩ := makeDirectory_eq_ok h
  intro loc
  rw [lookup?_put t place .directory loc hroot]
  by_cases hloc : loc = place
  · subst hloc
    rw [if_pos rfl]
    exact Or.inr ⟨hfree, rfl, p, List.mem_singleton_self p, hled⟩
  · rw [if_neg hloc]
    exact Or.inl rfl

theorem makes_makeEach (t : FileTree) (here : Location) (ps : List Path) :
    Makes here ps t (t.makeEach here ps).1 := by
  induction ps generalizing t with
  | nil => exact Makes.refl here [] t
  | cons p ps ih =>
    have hrest : ∀ q ∈ ps, q ∈ p :: ps := fun q hq => List.mem_cons_of_mem p hq
    unfold makeEach
    cases hmake : t.makeDirectory here p with
    | ok t' =>
      have hfirst : Makes here (p :: ps) t t' := (makes_makeDirectory hmake).mono (by simp)
      exact hfirst.trans ((ih t').mono hrest)
    | error e =>
      dsimp only
      split
      · exact (ih t).mono hrest
      · exact Makes.refl here _ t

theorem makes_makeUpward (t : FileTree) (here : Location) (below ps : List Path) :
    Makes here (below ++ ps) t (t.makeUpward here below ps).1 := by
  induction ps generalizing below with
  | nil =>
    rw [List.append_nil]
    exact makes_makeEach t here below
  | cons p ps ih =>
    have hbelow : ∀ q ∈ below, q ∈ below ++ p :: ps := fun q hq => List.mem_append_left _ hq
    unfold makeUpward
    split
    · exact (makes_makeEach t here below).mono hbelow
    · cases hmake : t.makeDirectory here p with
      | ok t' =>
        have hfirst : Makes here (below ++ p :: ps) t t' := (makes_makeDirectory hmake).mono (by simp)
        exact hfirst.trans ((makes_makeEach t' here below).mono hbelow)
      | error e =>
        have hupward : Makes here (below ++ p :: ps) t (t.makeUpward here (p :: below) ps).1 := by
          apply (ih (p :: below)).mono
          intro q hq
          simp only [List.mem_append, List.mem_cons] at hq ⊢
          tauto
        have hdownward : Makes here (below ++ p :: ps) t
            (if t.isDirectory here p then makeEach t here below else (t, .error e)).1 := by
          split
          · exact (makes_makeEach t here below).mono hbelow
          · exact Makes.refl here _ t
        cases e with
        | notFound => exact hupward
        | _ => exact hdownward

theorem makes_makeDirectories (t : FileTree) (here : Location) (p : Path) :
    Makes here p.ancestors t (t.makeDirectories here p).1 := makes_makeUpward t here [] p.ancestors

end FileTree

end ScriptInclude
