import Mathlib.Data.List.Basic
import ScriptInclude.Proofs.PathNames

/-!
# Lines of a text

Lines that are written one after the other, each with a line feed at its end, are the lines that are read, as long
as none of them has a line feed of its own. A line that is written between two fixed texts gives back what stands
between them.
-/

namespace ScriptInclude.Text

variable {sep : Char} {cs line inner : List Char} {ls ls' : List (List Char)} {left right : String}

theorem pieces_of_not_mem (h : sep ∉ cs) : pieces sep cs = [cs] := by
  have hpieces : pieces sep ([sep].intercalate [cs]) = [cs] :=
    pieces_intercalate sep (by simpa using h) (List.cons_ne_nil cs [])
  simpa using hpieces

/-! ## A separator after each piece -/

theorem pieces_flatMap (h : ∀ l ∈ ls, sep ∉ l) : pieces sep (ls.flatMap fun l => l ++ [sep]) = ls ++ [[]] := by
  induction ls with
  | nil => rfl
  | cons l ls ih =>
    obtain ⟨hl, hls⟩ := List.forall_mem_cons.mp h
    rw [List.flatMap_cons, List.append_assoc, List.singleton_append, pieces_append_cons, pieces_of_not_mem hl, ih hls]
    rfl

theorem eq_of_flatMap_eq (h : ∀ l ∈ ls, sep ∉ l) (h' : ∀ l ∈ ls', sep ∉ l)
    (heq : (ls.flatMap fun l => l ++ [sep]) = ls'.flatMap fun l => l ++ [sep]) : ls = ls' := by
  have hpieces := congrArg (pieces sep) heq
  rw [pieces_flatMap h, pieces_flatMap h'] at hpieces
  exact List.append_cancel_right hpieces

theorem intercalate_append (sep : List Char) (ls : List (List Char)) {more : List (List Char)} (hne : more ≠ []) :
    sep.intercalate (ls ++ more) = (ls.flatMap fun l => l ++ sep) ++ sep.intercalate more := by
  induction ls with
  | nil => rfl
  | cons l ls ih =>
    have hrest : ls ++ more ≠ [] := by simp [hne]
    obtain ⟨next, rest, hnext⟩ := List.exists_cons_of_ne_nil hrest
    rw [List.cons_append, hnext, List.intercalate_cons_cons, ← hnext, ih, List.flatMap_cons, List.append_assoc,
      List.append_assoc, List.append_assoc]

/-! ## Lines -/

theorem lines_append_feed (h : '\n' ∉ line) (rest : List Char) :
    lines (line ++ '\n' :: rest) = stripReturn line :: lines rest := by
  unfold lines
  rw [pieces_append_cons, pieces_of_not_mem h]
  cases hrest : pieces '\n' rest with
  | nil => exact absurd hrest (pieces_ne_nil '\n' rest)
  | cons piece more => rfl

theorem lines_flatMap {ls : List (List Char)} (hfeed : ∀ l ∈ ls, '\n' ∉ l) (hreturn : ∀ l ∈ ls, l.getLast? ≠ some '\r') :
    lines (ls.flatMap fun l => l ++ ['\n']) = ls := by
  induction ls with
  | nil => rfl
  | cons l ls ih =>
    simp only [List.forall_mem_cons] at hfeed hreturn
    have hl : stripReturn l = l := by simp [stripReturn, hreturn.1]
    rw [List.flatMap_cons, List.append_assoc, List.singleton_append, lines_append_feed hfeed.1, hl,
      ih hfeed.2 hreturn.2]

theorem mem_of_mem_linesOfPieces {ps : List (List Char)} (h : line ∈ linesOfPieces ps) : ∃ p ∈ ps, line.Sublist p := by
  fun_induction linesOfPieces ps with
  | case1 => simp at h
  | case2 => simp at h
  | case3 last hlast => exact ⟨last, by simp, by simp_all⟩
  | case4 p q ps ih =>
    rcases List.mem_cons.mp h with rfl | h
    · refine ⟨p, by simp, ?_⟩
      unfold stripReturn
      split
      · exact List.dropLast_sublist p
      · exact List.Sublist.refl p
    · obtain ⟨piece, hpiece, hsub⟩ := ih h
      exact ⟨piece, List.mem_cons_of_mem p hpiece, hsub⟩

theorem not_mem_of_mem_lines (h : line ∈ lines cs) : '\n' ∉ line := by
  obtain ⟨piece, hpiece, hsub⟩ := mem_of_mem_linesOfPieces h
  intro hfeed
  exact not_mem_of_mem_pieces hpiece (hsub.subset hfeed)

theorem mem_of_mem_lines {c : Char} (h : line ∈ lines cs) (hc : c ∈ line) : c ∈ cs := by
  obtain ⟨piece, hpiece, hsub⟩ := mem_of_mem_linesOfPieces h
  have hmem : c ∈ piece := hsub.subset hc
  have hne : c ≠ '\n' := by
    rintro rfl
    exact not_mem_of_mem_pieces hpiece hmem
  exact (mem_pieces hne).mpr ⟨piece, hpiece, hmem⟩

theorem linesOfPieces_eq_nil {p : List Char} {ps : List (List Char)} (h : linesOfPieces (p :: ps) = []) :
    p = [] ∧ ps = [] := by
  cases ps with
  | nil =>
    by_cases hp : p = []
    · exact ⟨hp, rfl⟩
    · simp [linesOfPieces, hp] at h
  | cons q ps => simp [linesOfPieces] at h

/-- A text of one empty line ends with a line feed. -/
theorem lines_ne_empty_line (h : cs.getLast? ≠ some '\n') : lines cs ≠ [[]] := by
  intro hlines
  have hjoin := join_pieces '\n' cs
  unfold lines at hlines
  cases hps : pieces '\n' cs with
  | nil => exact pieces_ne_nil '\n' cs hps
  | cons p ps =>
    rw [hps] at hlines hjoin
    cases ps with
    | nil => by_cases hp : p = [] <;> simp [linesOfPieces, hp] at hlines
    | cons q ps =>
      obtain ⟨rfl, rfl⟩ := linesOfPieces_eq_nil (List.cons.inj hlines).2
      apply h
      rw [← hjoin]
      simp [join]

/-! ## Between two texts -/

/-- What is left of a line between a beginning and an end. -/
def between? (left right : String) (line : List Char) : Option (List Char) :=
  (line.dropPrefix? left.toList).bind fun rest => rest.dropSuffix? right.toList

theorem between?_eq_some :
    between? left right line = some inner ↔ line = left.toList ++ inner ++ right.toList := by
  simp [between?, Option.bind_eq_some_iff, List.dropPrefix?_eq_some_iff, List.dropSuffix?_eq_some_iff]

end ScriptInclude.Text
