import ScriptInclude.Proofs.Lines
import ScriptInclude.Proofs.Writing

/-!
# What an import file declares

A generated file has a line for its header and one for each target, and who reads it line by line finds the targets
again. Names are written as they are, though: a line feed in a name ends the line, and what comes after it may be
taken for a line of its own.
-/

namespace ScriptInclude.ExportFile

/-! ## The lines of an import file -/

def headerLine (now : String) : String := "# Generated by export() on " ++ now ++ ". Do not edit."

def declaration (target : String) : String := "add_library(" ++ target ++ " UNKNOWN IMPORTED)"

def declaredBy? (line : List Char) : Option String :=
  (Text.between? "add_library(" " UNKNOWN IMPORTED)" line).map String.ofList

/-- The targets that a reader finds who goes through a text line by line. -/
def declaredIn (text : String) : List String := (Text.lines text.toList).filterMap declaredBy?

def contentLines (e : ExportFile) (now : String) : List (List Char) :=
  (headerLine now :: e.targets.map declaration).map String.toList

variable {e : ExportFile} {now target : String} {line : List Char}

theorem toList_headerLine (now : String) :
    (headerLine now).toList = "# Generated by export() on ".toList ++ now.toList ++ ". Do not edit.".toList := by
  unfold headerLine
  rw [String.toList_append, String.toList_append]

theorem toList_declaration (target : String) :
    (declaration target).toList = "add_library(".toList ++ target.toList ++ " UNKNOWN IMPORTED)".toList := by
  unfold declaration
  rw [String.toList_append, String.toList_append]

theorem toList_header (now : String) : (header now).toList = (headerLine now).toList ++ ['\n'] := by
  have hend : ". Do not edit.\n" = ". Do not edit." ++ "\n" := by decide
  have hfeed : "\n".toList = ['\n'] := by decide
  unfold header headerLine
  rw [hend, ← String.append_assoc, String.toList_append, hfeed]

theorem toList_targetLine (target : String) : (targetLine target).toList = (declaration target).toList ++ ['\n'] := by
  have hend : " UNKNOWN IMPORTED)\n" = " UNKNOWN IMPORTED)" ++ "\n" := by decide
  have hfeed : "\n".toList = ['\n'] := by decide
  unfold targetLine declaration
  rw [hend, ← String.append_assoc, String.toList_append, hfeed]

theorem toList_content (e : ExportFile) (now : String) :
    (e.content now).toList = (e.contentLines now).flatMap fun l => l ++ ['\n'] := by
  simp only [content, contentLines, String.toList_append, String.toList_join, toList_header, List.flatMap_map,
    toList_targetLine, List.map_cons, List.map_map, List.flatMap_cons, Function.comp_apply]

/-! ## Reading a line -/

theorem declaredBy?_eq_some : declaredBy? line = some target ↔ line = (declaration target).toList := by
  rw [declaredBy?, Option.map_eq_some_iff, toList_declaration]
  constructor
  · intro h
    obtain ⟨inner, hinner, htarget⟩ := h
    have htext : target.toList = inner := by rw [← htarget, String.toList_ofList]
    rw [htext]
    exact Text.between?_eq_some.mp hinner
  · intro h
    exact ⟨target.toList, Text.between?_eq_some.mpr h, String.ofList_toList⟩

theorem declaredBy?_headerLine (now : String) : declaredBy? (headerLine now).toList = none := by
  apply Option.eq_none_iff_forall_ne_some.mpr
  intro target h
  rw [declaredBy?_eq_some, toList_headerLine, toList_declaration] at h
  exact absurd (congrArg List.head? h) (by simp)

theorem filterMap_contentLines (e : ExportFile) (now : String) :
    (e.contentLines now).filterMap declaredBy? = e.targets := by
  have htarget : ∀ t, declaredBy? (declaration t).toList = some t := fun t => declaredBy?_eq_some.mpr rfl
  simp only [contentLines, List.map_cons, List.filterMap_cons_none (declaredBy?_headerLine now), List.map_map,
    List.filterMap_map, Function.comp_def, htarget, List.filterMap_some]

/-! ## Names without line feeds -/

theorem feed_mem_declaration : '\n' ∈ (declaration target).toList ↔ '\n' ∈ target.toList := by
  have hstart : '\n' ∉ "add_library(".toList := by decide
  have hend : '\n' ∉ " UNKNOWN IMPORTED)".toList := by decide
  simp only [toList_declaration, List.mem_append, hstart, hend, false_or, or_false]

theorem feed_mem_headerLine : '\n' ∈ (headerLine now).toList ↔ '\n' ∈ now.toList := by
  have hstart : '\n' ∉ "# Generated by export() on ".toList := by decide
  have hend : '\n' ∉ ". Do not edit.".toList := by decide
  simp only [toList_headerLine, List.mem_append, hstart, hend, false_or, or_false]

theorem getLast?_contentLines : ∀ l ∈ e.contentLines now, l.getLast? ≠ some '\r' := by
  have hheader : ". Do not edit.".toList.getLast? = some '.' := by decide
  have htarget : " UNKNOWN IMPORTED)".toList.getLast? = some ')' := by decide
  simp only [contentLines, List.map_cons, List.map_map, List.forall_mem_cons, List.forall_mem_map, Function.comp_apply,
    toList_headerLine, toList_declaration, List.getLast?_append, hheader, htarget]
  simp

theorem lines_content (hnow : '\n' ∉ now.toList) (h : ∀ t ∈ e.targets, '\n' ∉ t.toList) :
    Text.lines (e.content now).toList = e.contentLines now := by
  rw [toList_content]
  apply Text.lines_flatMap _ getLast?_contentLines
  simp only [contentLines, List.map_cons, List.map_map, List.forall_mem_cons, List.forall_mem_map, Function.comp_apply,
    feed_mem_headerLine, feed_mem_declaration]
  exact ⟨hnow, h⟩

/-- **An import file declares its targets** if no name of a target has a line feed in it, and only then. -/
theorem declaredIn_eq_targets_iff (e : ExportFile) (w after : World) (hnow : '\n' ∉ w.now.toList)
    (hwrite : e.write w = (after, .ok ())) :
    ∃ text, after.readText e.path = .ok text ∧
      (Text.lines text.toList = (headerLine w.now :: e.targets.map declaration).map String.toList ↔
        ∀ t ∈ e.targets, '\n' ∉ t.toList) ∧
      (declaredIn text = e.targets ↔ ∀ t ∈ e.targets, '\n' ∉ t.toList) := by
  refine ⟨e.content w.now, readText_of_write hwrite, ?_, ?_⟩
  · constructor
    · intro hlines t ht hfeed
      have hline : (declaration t).toList ∈ Text.lines (e.content w.now).toList := by
        rw [hlines]
        exact List.mem_map_of_mem (List.mem_cons_of_mem _ (List.mem_map_of_mem ht))
      exact Text.not_mem_of_mem_lines hline (feed_mem_declaration.mpr hfeed)
    · exact lines_content hnow
  · constructor
    · intro hdeclared t ht hfeed
      rw [← hdeclared] at ht
      obtain ⟨line, hline, hby⟩ := List.mem_filterMap.mp ht
      rw [declaredBy?_eq_some.mp hby] at hline
      exact Text.not_mem_of_mem_lines hline (feed_mem_declaration.mpr hfeed)
    · intro h
      rw [declaredIn, lines_content hnow h, filterMap_contentLines]

theorem exists_of_write_isOk {w : World} (h : (e.write w).2.isOk = true) : ∃ after, e.write w = (after, .ok ()) := by
  cases hwrite : e.write w with
  | mk after r =>
    cases r with
    | ok u => exact ⟨after, rfl⟩
    | error err => simp [hwrite, Except.isOk, Except.toBool] at h

/-- Names with a carriage return, with the end of a line in them, and without a character. -/
theorem declaredIn_eq_targets_odd_names :
    let e : ExportFile := ⟨⟨"/w/out/T.cmake"⟩, ["a\r", "b UNKNOWN IMPORTED) # c", "", "a\r"]⟩
    let w : World := { tree := { entries := [(["w"], .directory)] }, now := "Monday" }
    ∃ after text, e.write w = (after, .ok ()) ∧ after.readText e.path = .ok text ∧ declaredIn text = e.targets := by
  intro e w
  obtain ⟨after, hwrite⟩ := exists_of_write_isOk (e := e) (w := w) (by decide +kernel)
  obtain ⟨text, hread, -, hdeclared⟩ := declaredIn_eq_targets_iff e w after (by decide) hwrite
  exact ⟨after, text, hwrite, hread, hdeclared.mpr (by decide)⟩

/-- One target is registered, and the file that is written declares two others. -/
theorem declaredIn_forged :
    let e : ExportFile := ⟨⟨"/T.cmake"⟩, ["A UNKNOWN IMPORTED)\nadd_library(B"]⟩
    ∃ after text, e.write {} = (after, .ok ()) ∧ after.readText e.path = .ok text ∧
      Text.lines text.toList = [headerLine "", declaration "A", declaration "B"].map String.toList ∧
      declaredIn text = ["A", "B"] ∧ declaredIn text ≠ e.targets := by
  intro e
  obtain ⟨after, hwrite⟩ := exists_of_write_isOk (e := e) (w := {}) (by decide +kernel)
  exact ⟨after, _, hwrite, readText_of_write hwrite, by decide +kernel, by decide +kernel, by decide +kernel⟩

end ScriptInclude.ExportFile
