import Mathlib.Data.List.TakeWhile
import ScriptInclude.Text.Blank

/-!
# Trimmed texts

Trimming takes away all blanks around a text and nothing else: what it leaves is the one text without a blank at
its ends that gives the whole when blanks are put around it.
-/

namespace ScriptInclude.Text

def AllBlank (cs : List Char) : Prop := ∀ c ∈ cs, isBlank c = true

/-- No blank stands at either end. -/
structure Trimmed (cs : List Char) : Prop where
  head : ∀ c ∈ cs.head?, isBlank c = false
  last : ∀ c ∈ cs.getLast?, isBlank c = false

/-- `padded` is `cs` with blanks around it. -/
def Padded (cs padded : List Char) : Prop :=
  ∃ before after, AllBlank before ∧ AllBlank after ∧ padded = before ++ cs ++ after

instance (cs : List Char) : Decidable (AllBlank cs) := decidable_of_iff (cs.all isBlank = true) List.all_eq_true

variable {cs before after padded : List Char}

theorem AllBlank.not_mem {c : Char} (h : AllBlank cs) (hc : isBlank c = false) : c ∉ cs := by
  intro hmem
  exact Bool.false_ne_true (hc.symm.trans (h c hmem))

theorem Padded.not_mem {c : Char} (h : Padded cs padded) (hc : isBlank c = false) (hcs : c ∉ cs) : c ∉ padded := by
  obtain ⟨before, after, hbefore, hafter, rfl⟩ := h
  simp [hbefore.not_mem hc, hafter.not_mem hc, hcs]

/-! ## At one end -/

theorem dropWhile_isBlank_eq_nil_iff : cs.dropWhile isBlank = [] ↔ AllBlank cs := List.dropWhile_eq_nil_iff

theorem dropWhile_isBlank_append (h : AllBlank before) :
    (before ++ cs).dropWhile isBlank = cs.dropWhile isBlank := List.dropWhile_append_of_pos h

theorem dropWhile_isBlank_eq_self (h : ∀ c ∈ cs.head?, isBlank c = false) : cs.dropWhile isBlank = cs := by
  cases cs with
  | nil => rfl
  | cons c cs => exact List.dropWhile_cons_of_neg (by simp [h c rfl])

theorem isBlank_head?_dropWhile {c : Char} (h : c ∈ (cs.dropWhile isBlank).head?) : isBlank c = false := by
  have hnot := List.head?_dropWhile_not isBlank cs
  rw [h] at hnot
  exact hnot

theorem allBlank_reverse_iff : AllBlank cs.reverse ↔ AllBlank cs := by simp [AllBlank]

theorem trimEndChars_append (h : AllBlank after) : trimEndChars (cs ++ after) = trimEndChars cs := by
  rw [trimEndChars, List.reverse_append, dropWhile_isBlank_append (allBlank_reverse_iff.mpr h), trimEndChars]

theorem trimEndChars_eq_self (h : ∀ c ∈ cs.getLast?, isBlank c = false) : trimEndChars cs = cs := by
  rw [trimEndChars, dropWhile_isBlank_eq_self (by simpa using h), List.reverse_reverse]

theorem isBlank_getLast?_trimEndChars {c : Char} (h : c ∈ (trimEndChars cs).getLast?) : isBlank c = false := by
  rw [trimEndChars, List.getLast?_reverse] at h
  exact isBlank_head?_dropWhile h

theorem exists_trimEndChars_append (cs : List Char) : ∃ after, AllBlank after ∧ cs = trimEndChars cs ++ after := by
  refine ⟨(cs.reverse.takeWhile isBlank).reverse, ?_, ?_⟩
  · exact allBlank_reverse_iff.mpr fun c hc => List.mem_takeWhile_imp hc
  · rw [trimEndChars, ← List.reverse_append, List.takeWhile_append_dropWhile, List.reverse_reverse]

/-! ## At both ends -/

theorem trimmed_nil : Trimmed [] := ⟨by simp, by simp⟩

theorem padded_nil_iff : Padded [] padded ↔ AllBlank padded := by
  constructor
  · rintro ⟨before, after, hbefore, hafter, rfl⟩
    rw [List.append_nil]
    exact List.forall_mem_append.mpr ⟨hbefore, hafter⟩
  · intro h
    exact ⟨padded, [], h, List.forall_mem_nil _, by simp⟩

theorem trimChars_of_padded (h : Padded cs padded) (hcs : Trimmed cs) : trimChars padded = cs := by
  obtain ⟨before, after, hbefore, hafter, rfl⟩ := h
  rw [trimChars, List.append_assoc, dropWhile_isBlank_append hbefore]
  cases cs with
  | nil =>
    -- Nothing stops the dropping, so the blanks behind go with those in front.
    rw [List.nil_append, dropWhile_isBlank_eq_nil_iff.mpr hafter]
    rfl
  | cons c cs =>
    have hhead : ∀ d ∈ (c :: cs ++ after).head?, isBlank d = false := hcs.head
    rw [dropWhile_isBlank_eq_self hhead, trimEndChars_append hafter, trimEndChars_eq_self hcs.last]

theorem padded_trimChars (cs : List Char) : Padded (trimChars cs) cs := by
  obtain ⟨after, hafter, hsplit⟩ := exists_trimEndChars_append (cs.dropWhile isBlank)
  refine ⟨cs.takeWhile isBlank, after, fun c hc => List.mem_takeWhile_imp hc, hafter, ?_⟩
  rw [trimChars, List.append_assoc, ← hsplit, List.takeWhile_append_dropWhile]

theorem not_mem_trimChars {c : Char} (h : c ∉ cs) : c ∉ trimChars cs := by
  obtain ⟨before, after, -, -, hcs⟩ := padded_trimChars cs
  rw [hcs] at h
  simp only [List.mem_append, not_or] at h
  exact h.1.2

theorem trimmed_trimChars (cs : List Char) : Trimmed (trimChars cs) := by
  refine ⟨?_, fun c hc => isBlank_getLast?_trimEndChars hc⟩
  intro c hc
  obtain ⟨after, -, hsplit⟩ := exists_trimEndChars_append (cs.dropWhile isBlank)
  have hhead : c ∈ (cs.dropWhile isBlank).head? := by
    rw [trimChars] at hc
    rw [hsplit, List.head?_append, hc]
    rfl
  exact isBlank_head?_dropWhile hhead

/-- What trimming leaves. -/
theorem trimChars_eq_iff : trimChars padded = cs ↔ Padded cs padded ∧ Trimmed cs := by
  constructor
  · rintro rfl
    exact ⟨padded_trimChars padded, trimmed_trimChars padded⟩
  · rintro ⟨hpadded, hcs⟩
    exact trimChars_of_padded hpadded hcs

theorem trimChars_eq_self_iff : trimChars cs = cs ↔ Trimmed cs := by
  have hself : Padded cs cs := ⟨[], [], List.forall_mem_nil _, List.forall_mem_nil _, by simp⟩
  rw [trimChars_eq_iff]
  exact and_iff_right hself

instance (cs : List Char) : Decidable (Trimmed cs) := decidable_of_iff (trimChars cs = cs) trimChars_eq_self_iff

theorem trimChars_eq_nil_iff : trimChars cs = [] ↔ AllBlank cs := by
  rw [trimChars_eq_iff, padded_nil_iff]
  exact and_iff_left trimmed_nil

end ScriptInclude.Text
