import Mathlib.Data.List.Forall2
import ScriptInclude.Proofs.Lines
import ScriptInclude.Proofs.Trimming
import ScriptInclude.Report.Human

/-!
# Messages in a report

A report for people shows its messages line by line. The first line of a message begins with its level, and no
level begins like another; its other lines are indented deeper. So the lines can be parted into messages again,
whatever the texts look like, and two reports that differ in nothing else show the same only if their messages have
the same levels and lines.
-/

namespace ScriptInclude

namespace Report

/-! ## Lines of a message -/

theorem textLines_ne_empty_line (text : String) : textLines text ≠ [""] := by
  intro h
  have hlast : (Text.trimEndChars text.toList).getLast? ≠ some '\n' := by
    intro hlast
    have hblank := Text.isBlank_getLast?_trimEndChars hlast
    revert hblank
    decide
  apply Text.lines_ne_empty_line hlast
  unfold textLines at h
  obtain ⟨line, hline, hempty⟩ := List.map_eq_singleton_iff.mp h
  rw [hline, String.ofList_eq_empty_iff.mp hempty]

theorem not_mem_textLines {text line : String} (h : line ∈ textLines text) : '\n' ∉ line.toList := by
  obtain ⟨cs, hcs, rfl⟩ := List.mem_map.mp h
  rw [String.toList_ofList]
  exact Text.not_mem_of_mem_lines hcs

/-- The empty text that is shown in place of no line is never the only line. -/
theorem textLines_eq_of_parts {text text' : String} (hhead : (textLines text).headD "" = (textLines text').headD "")
    (htail : (textLines text).tail = (textLines text').tail) : textLines text = textLines text' := by
  have hne := textLines_ne_empty_line text
  have hne' := textLines_ne_empty_line text'
  cases h : textLines text <;> cases h' : textLines text' <;> simp_all

/-! ## First and later lines -/

/-- How the first line of a message begins. -/
def label (colours : Bool) (l : Level) : String := "  " ++ paint colours (levelColour l) l.name ++ ": "

/-- Indented like the later lines of a message. -/
def IsLater (line : String) : Prop := "    ".toList <+: line.toList

instance (line : String) : Decidable (IsLater line) := inferInstanceAs (Decidable (_ <+: _))

theorem messageLines_eq (colours : Bool) (m : Message) :
    messageLines colours m =
      (label colours m.level ++ (textLines m.text).headD "") :: (textLines m.text).tail.map ("    " ++ ·) := rfl

/-- No label is the beginning of another one. -/
theorem eq_of_label_isPrefix {colours : Bool} {l l' : Level} :
    (label colours l).toList <+: (label colours l').toList → l = l' := by
  cases colours <;> cases l <;> cases l' <;> decide

theorem not_isLater_label (colours : Bool) (l : Level) (text : String) : ¬ IsLater (label colours l ++ text) := by
  intro h
  unfold IsLater at h
  rw [String.toList_append] at h
  have hlength : "    ".toList.length ≤ (label colours l).toList.length := by cases colours <;> cases l <;> decide
  have hlabel := List.prefix_of_prefix_length_le h (List.prefix_append _ _) hlength
  revert hlabel
  cases colours <;> cases l <;> decide

theorem eq_of_label_append_eq {colours : Bool} {l l' : Level} {first first' : String}
    (h : label colours l ++ first = label colours l' ++ first') : l = l' ∧ first = first' := by
  have hlists : (label colours l).toList ++ first.toList = (label colours l').toList ++ first'.toList := by
    rw [← String.toList_append, h, String.toList_append]
  have hlevel : l = l' := by
    rcases List.append_eq_append_iff.mp hlists with ⟨more, hmore, -⟩ | ⟨more, hmore, -⟩
    · exact eq_of_label_isPrefix ⟨more, hmore.symm⟩
    · exact (eq_of_label_isPrefix ⟨more, hmore.symm⟩).symm
  subst hlevel
  exact ⟨rfl, (String.append_right_inj _).mp h⟩

theorem isLater_append (text : String) : IsLater ("    " ++ text) := by
  unfold IsLater
  rw [String.toList_append]
  exact List.prefix_append _ _

theorem not_isLater_head (colours : Bool) (ms : List Message) :
    ∀ line ∈ (ms.flatMap (messageLines colours)).head?, ¬ IsLater line := by
  cases ms with
  | nil => simp
  | cons m ms =>
    intro line hline
    rw [List.flatMap_cons, messageLines_eq, List.cons_append, List.head?_cons, Option.mem_some_iff] at hline
    rw [← hline]
    exact not_isLater_label colours m.level _

theorem takeWhile_isLater (texts : List String) {rest : List String} (hrest : ∀ line ∈ rest.head?, ¬ IsLater line) :
    (texts.map ("    " ++ ·) ++ rest).takeWhile (IsLater ·) = texts.map ("    " ++ ·) := by
  have hlater : ∀ line ∈ texts.map ("    " ++ ·), decide (IsLater line) = true := by
    intro line hline
    obtain ⟨text, -, rfl⟩ := List.mem_map.mp hline
    exact decide_eq_true (isLater_append text)
  rw [List.takeWhile_append_of_pos hlater]
  cases rest with
  | nil => simp
  | cons line rest =>
    have hline : ¬ IsLater line := hrest line rfl
    rw [List.takeWhile_cons_of_neg (by simpa using hline), List.append_nil]

/-! ## Entries -/

/-- The messages are shown in the same way. -/
def SameEntry (m m' : Message) : Prop := m.level = m'.level ∧ textLines m.text = textLines m'.text

theorem messageLines_eq_of_sameEntry {m m' : Message} (h : SameEntry m m') (colours : Bool) :
    messageLines colours m = messageLines colours m' := by
  rw [messageLines_eq, messageLines_eq, h.1, h.2]

/-- The lines of the first message end where a line is not indented like a later one. -/
theorem sameEntry_of_append_eq {colours : Bool} {m m' : Message} {rest rest' : List String}
    (hrest : ∀ line ∈ rest.head?, ¬ IsLater line) (hrest' : ∀ line ∈ rest'.head?, ¬ IsLater line)
    (h : messageLines colours m ++ rest = messageLines colours m' ++ rest') : SameEntry m m' ∧ rest = rest' := by
  rw [messageLines_eq, messageLines_eq, List.cons_append, List.cons_append] at h
  obtain ⟨hfirst, hlater⟩ := List.cons.inj h
  obtain ⟨hlevel, hhead⟩ := eq_of_label_append_eq hfirst
  have htexts := congrArg (List.takeWhile (IsLater ·)) hlater
  rw [takeWhile_isLater _ hrest, takeWhile_isLater _ hrest'] at htexts
  rw [htexts] at hlater
  have htail : (textLines m.text).tail = (textLines m'.text).tail :=
    List.map_injective_iff.mpr (fun _ _ => (String.append_right_inj _).mp) htexts
  exact ⟨⟨hlevel, textLines_eq_of_parts hhead htail⟩, List.append_cancel_left hlater⟩

theorem flatMap_messageLines_eq_iff {colours : Bool} {ms ms' : List Message} :
    ms.flatMap (messageLines colours) = ms'.flatMap (messageLines colours) ↔ List.Forall₂ SameEntry ms ms' := by
  constructor
  · intro h
    induction ms generalizing ms' with
    | nil =>
      cases ms' with
      | nil => exact List.Forall₂.nil
      | cons m' ms' => simp [messageLines_eq] at h
    | cons m ms ih =>
      cases ms' with
      | nil => simp [messageLines_eq] at h
      | cons m' ms' =>
        rw [List.flatMap_cons, List.flatMap_cons] at h
        obtain ⟨hentry, hmore⟩ :=
          sameEntry_of_append_eq (not_isLater_head colours ms) (not_isLater_head colours ms') h
        exact List.Forall₂.cons hentry (ih hmore)
  · intro h
    induction h with
    | nil => rfl
    | cons hentry _ ih => rw [List.flatMap_cons, List.flatMap_cons, messageLines_eq_of_sameEntry hentry, ih]

/-! ## Reports -/

theorem not_mem_messageLines {colours : Bool} {m : Message} {line : String} (h : line ∈ messageLines colours m) :
    '\n' ∉ line.toList := by
  rw [messageLines_eq] at h
  rcases List.mem_cons.mp h with rfl | h
  · have hlabel : '\n' ∉ (label colours m.level).toList := by
      cases colours <;> cases m.level <;> decide
    have hfirst : '\n' ∉ ((textLines m.text).headD "").toList := by
      cases hcs : textLines m.text with
      | nil => simp
      | cons first rest =>
        have hmem : first ∈ textLines m.text := by simp [hcs]
        exact not_mem_textLines hmem
    rw [String.toList_append, List.mem_append]
    exact not_or.mpr ⟨hlabel, hfirst⟩
  · obtain ⟨text, htext, rfl⟩ := List.mem_map.mp h
    have hindent : '\n' ∉ "    ".toList := by decide
    rw [String.toList_append, List.mem_append]
    exact not_or.mpr ⟨hindent, not_mem_textLines (List.mem_of_mem_tail htext)⟩

/-- What a report shows after its messages. -/
def afterMessages (colours : Bool) (r : Report) : List String :=
  r.generated.map (fun p => "  " ++ paint colours .cyan "generated" ++ " " ++ p.text) ++
    r.bindings.entries.map (fun (name, value) => "  " ++ paint colours .cyan name ++ " = " ++ value) ++
    ["  " ++ ending colours r.result]

theorem toList_human (colours : Bool) (r : Report) :
    (human colours r).toList =
      (paint colours .bold r.call).toList ++ '\n' ::
        (((r.messages.flatMap (messageLines colours)).map String.toList).flatMap (fun l => l ++ ['\n']) ++
          ['\n'].intercalate ((afterMessages colours r).map String.toList)) := by
  have hfeed : "\n".toList = ['\n'] := by decide
  have hlines : r.humanLines colours =
      (paint colours .bold r.call :: r.messages.flatMap (messageLines colours)) ++ afterMessages colours r := by
    simp [humanLines, afterMessages]
  rw [human, String.toList_intercalate, hfeed, hlines, List.map_append,
    Text.intercalate_append _ _ (by simp [afterMessages])]
  simp

/-- The lines of messages are found again between the line feeds. -/
theorem flatMap_feed_eq_iff {colours : Bool} {ms ms' : List Message} :
    (((ms.flatMap (messageLines colours)).map String.toList).flatMap fun l => l ++ ['\n']) =
        (((ms'.flatMap (messageLines colours)).map String.toList).flatMap fun l => l ++ ['\n']) ↔
      ms.flatMap (messageLines colours) = ms'.flatMap (messageLines colours) := by
  have hfeed : ∀ ms : List Message, ∀ l ∈ (ms.flatMap (messageLines colours)).map String.toList, '\n' ∉ l := by
    intro ms l hl
    obtain ⟨line, hline, rfl⟩ := List.mem_map.mp hl
    obtain ⟨m, -, hm⟩ := List.mem_flatMap.mp hline
    exact not_mem_messageLines hm
  constructor
  · intro h
    exact List.map_injective_iff.mpr (fun _ _ => String.toList_inj.mp) (Text.eq_of_flatMap_eq (hfeed ms) (hfeed ms') h)
  · intro h
    rw [h]

/-- **Message texts forge nothing.** Reports that differ in their messages only show the same text exactly if they
have equally many messages, and one by one these have the same level and the same lines. -/
theorem human_eq_iff (colours : Bool) (r : Report) (ms ms' : List Message) :
    human colours { r with messages := ms } = human colours { r with messages := ms' } ↔
      List.Forall₂ SameEntry ms ms' := by
  have hcall : ∀ ms, ({ r with messages := ms } : Report).call = r.call := fun _ => rfl
  have hafter : ∀ ms, afterMessages colours { r with messages := ms } = afterMessages colours r := fun _ => rfl
  rw [← String.toList_inj, toList_human, toList_human]
  simp only [hcall, hafter, List.append_cancel_left_eq, List.cons.injEq, true_and, List.append_cancel_right_eq]
  exact flatMap_feed_eq_iff.trans flatMap_messageLines_eq_iff

/-- A line that looks like another message is indented deeper, and blanks and returns at line ends leave nothing. -/
example :
    messageLines false ⟨.info, "a\r\n\n  warning: b \r\n"⟩ = ["  info: a", "    ", "      warning: b"] := by
  decide +kernel

end Report

end ScriptInclude
