import Mathlib.Data.List.TakeWhile
import ScriptInclude.Proofs.Lines
import ScriptInclude.Report.Human

/-!
# Colours

An escape sequence is the escape character, a bracket, digits and an `m`. Deleting the sequences of a text goes
through it part by part, as long as no part begins with what could be the rest of a sequence; and in a report no
coloured word is followed by such a part. So the colours of a report can be deleted again.
-/

namespace ScriptInclude

namespace Text

/-! ## Escape sequences -/

/-- What stands behind an escape sequence at the beginning of a text. -/
def behindSequence? : List Char → Option (List Char)
  | '\x1b' :: '[' :: cs =>
    if cs.takeWhile Char.isDigit = [] then none
    else if (cs.dropWhile Char.isDigit).head? = some 'm' then some (cs.dropWhile Char.isDigit).tail
    else none
  | _ => none

variable {cs rest xs ys ds : List Char} {c : Char}

theorem takeWhile_digits (h : ∀ d ∈ ds, d.isDigit = true) (rest : List Char) :
    (ds ++ 'm' :: rest).takeWhile Char.isDigit = ds := by
  rw [List.takeWhile_append_of_pos h, List.takeWhile_cons_of_neg (by decide), List.append_nil]

theorem dropWhile_digits (h : ∀ d ∈ ds, d.isDigit = true) (rest : List Char) :
    (ds ++ 'm' :: rest).dropWhile Char.isDigit = 'm' :: rest := by
  rw [List.dropWhile_append_of_pos h, List.dropWhile_cons_of_neg (by decide)]

theorem behindSequence?_eq_some :
    behindSequence? cs = some rest ↔
      ∃ ds, ds ≠ [] ∧ (∀ d ∈ ds, d.isDigit = true) ∧ cs = '\x1b' :: '[' :: (ds ++ 'm' :: rest) := by
  constructor
  · intro h
    unfold behindSequence? at h
    split at h
    · next cs =>
      split at h
      · cases h
      · next hne =>
        split at h
        · next hm =>
          obtain ⟨tail, htail⟩ := List.head?_eq_some_iff.mp hm
          obtain rfl : tail = rest := by simpa [htail] using h
          refine ⟨cs.takeWhile Char.isDigit, hne, fun d hd => List.mem_takeWhile_imp hd, ?_⟩
          rw [← htail, List.takeWhile_append_dropWhile]
        · cases h
    · cases h
  · rintro ⟨ds, hne, hdigits, rfl⟩
    rw [behindSequence?, takeWhile_digits hdigits, dropWhile_digits hdigits]
    simp [hne]

theorem length_lt_of_behindSequence? (h : behindSequence? cs = some rest) : rest.length < cs.length := by
  obtain ⟨ds, -, -, rfl⟩ := behindSequence?_eq_some.mp h
  simp only [List.length_cons, List.length_append]
  omega

/-- A text without its escape sequences. -/
def uncoloured : List Char → List Char
  | [] => []
  | c :: cs =>
    match _h : behindSequence? (c :: cs) with
    | some rest => uncoloured rest
    | none => c :: uncoloured cs
termination_by cs => cs.length
decreasing_by
  · exact length_lt_of_behindSequence? ‹_›
  · simp

theorem uncoloured_nil : uncoloured [] = [] := by rw [uncoloured]

theorem uncoloured_of_some (h : behindSequence? cs = some rest) : uncoloured cs = uncoloured rest := by
  cases cs with
  | nil => simp [behindSequence?] at h
  | cons c cs =>
    rw [uncoloured]
    split
    · next hsome =>
      rw [h] at hsome
      rw [Option.some.inj hsome]
    · next hnone =>
      rw [h] at hnone
      cases hnone

theorem uncoloured_cons_of_none (h : behindSequence? (c :: cs) = none) : uncoloured (c :: cs) = c :: uncoloured cs := by
  rw [uncoloured]
  split
  · next hsome =>
    rw [h] at hsome
    cases hsome
  · rfl

/-! ## Parts of a text -/

/-- No escape sequence that has begun goes on here. -/
def Breaks (cs : List Char) : Prop := ∀ c ∈ cs.head?, c ≠ '[' ∧ c.isDigit = false ∧ c ≠ 'm'

theorem behindSequence?_append (h : behindSequence? xs = some rest) (ys : List Char) :
    behindSequence? (xs ++ ys) = some (rest ++ ys) := by
  obtain ⟨ds, hne, hdigits, rfl⟩ := behindSequence?_eq_some.mp h
  apply behindSequence?_eq_some.mpr
  exact ⟨ds, hne, hdigits, by simp⟩

/-- A sequence at the beginning of the whole ends before the place where it cannot go on. -/
theorem behindSequence?_append_of_breaks (hxs : xs ≠ []) (hys : Breaks ys) (h : behindSequence? xs = none) :
    behindSequence? (xs ++ ys) = none := by
  rw [Option.eq_none_iff_forall_ne_some]
  intro rest hrest
  obtain ⟨ds, hne, hdigits, heq⟩ := behindSequence?_eq_some.mp hrest
  have hwithin : ∀ more, xs ≠ '\x1b' :: '[' :: (ds ++ 'm' :: more) := by
    intro more hxs
    rw [behindSequence?_eq_some.mpr ⟨ds, hne, hdigits, hxs⟩] at h
    cases h
  have hsplit : xs ++ ys = ('\x1b' :: '[' :: (ds ++ ['m'])) ++ rest := by simpa using heq
  rcases List.append_eq_append_iff.mp hsplit with ⟨left, hleft, hright⟩ | ⟨left, hleft, -⟩
  · obtain ⟨x, xs, rfl⟩ := List.exists_cons_of_ne_nil hxs
    cases left with
    | nil =>
      apply hwithin []
      simpa using hleft.symm
    | cons c left =>
      -- the sequence goes on where `ys` begins
      have hc : c ∈ '[' :: (ds ++ ['m']) := by
        rw [(List.cons.inj hleft).2]
        simp
      obtain ⟨hopen, hdigit, hm⟩ := hys c (by simp [hright])
      simp only [List.mem_cons, List.mem_append, List.not_mem_nil, or_false] at hc
      rcases hc with rfl | hc | rfl
      · exact hopen rfl
      · rw [hdigits c hc] at hdigit
        cases hdigit
      · exact hm rfl
  · apply hwithin left
    simpa using hleft

theorem uncoloured_append (hys : Breaks ys) : uncoloured (xs ++ ys) = uncoloured xs ++ uncoloured ys := by
  induction h : xs.length using Nat.strongRecOn generalizing xs with
  | ind n ih =>
    subst h
    cases xs with
    | nil => rw [uncoloured_nil]; rfl
    | cons c xs =>
      cases hseq : behindSequence? (c :: xs) with
      | some rest =>
        rw [uncoloured_of_some hseq, uncoloured_of_some (behindSequence?_append hseq ys)]
        exact ih rest.length (length_lt_of_behindSequence? hseq) rfl
      | none =>
        have hwhole := behindSequence?_append_of_breaks (List.cons_ne_nil c xs) hys hseq
        rw [List.cons_append] at hwhole ⊢
        rw [uncoloured_cons_of_none hseq, uncoloured_cons_of_none hwhole, ih xs.length (by simp) rfl]
        rfl

theorem uncoloured_cons (h : c ≠ '\x1b') (cs : List Char) : uncoloured (c :: cs) = c :: uncoloured cs := by
  apply uncoloured_cons_of_none
  rw [Option.eq_none_iff_forall_ne_some]
  intro rest hrest
  obtain ⟨ds, -, -, heq⟩ := behindSequence?_eq_some.mp hrest
  exact h (List.cons.inj heq).1

theorem uncoloured_append_of_not_mem (h : '\x1b' ∉ xs) (ys : List Char) :
    uncoloured (xs ++ ys) = xs ++ uncoloured ys := by
  induction xs with
  | nil => rfl
  | cons c xs ih =>
    obtain ⟨hc, hxs⟩ := not_or.mp (mt List.mem_cons.mpr h)
    rw [List.cons_append, uncoloured_cons (Ne.symm hc), ih hxs, List.cons_append]

theorem uncoloured_of_not_mem (h : '\x1b' ∉ xs) : uncoloured xs = xs := by
  have hxs := uncoloured_append_of_not_mem h []
  rwa [List.append_nil, uncoloured_nil, List.append_nil] at hxs

theorem uncoloured_sequence (hne : ds ≠ []) (hdigits : ∀ d ∈ ds, d.isDigit = true) (rest : List Char) :
    uncoloured ('\x1b' :: '[' :: (ds ++ 'm' :: rest)) = uncoloured rest :=
  uncoloured_of_some (behindSequence?_eq_some.mpr ⟨ds, hne, hdigits, rfl⟩)

theorem breaks_nil : Breaks [] := by simp [Breaks]

theorem breaks_cons (h : c ≠ '[' ∧ c.isDigit = false ∧ c ≠ 'm') (cs : List Char) : Breaks (c :: cs) := by
  intro d hd
  obtain rfl : c = d := by simpa using hd
  exact h

theorem uncoloured_intercalate (ls : List (List Char)) :
    uncoloured (['\n'].intercalate ls) = ['\n'].intercalate (ls.map uncoloured) := by
  induction ls with
  | nil => exact uncoloured_nil
  | cons l ls ih =>
    cases ls with
    | nil => simp
    | cons next ls =>
      have hbreak : Breaks ('\n' :: ['\n'].intercalate (next :: ls)) := breaks_cons (by decide) _
      rw [List.intercalate_cons_cons, List.append_assoc, List.singleton_append, uncoloured_append hbreak,
        uncoloured_cons (by decide), ih]
      simp

end Text

/-! ## Coloured lines -/

namespace Report

open Text (uncoloured Breaks)

theorem uncoloured_paint (colours : Bool) (c : Colour) (word : String) {rest : List Char} (h : Breaks rest) :
    uncoloured ((paint colours c word).toList ++ rest) = uncoloured word.toList ++ uncoloured rest := by
  cases colours with
  | false => exact Text.uncoloured_append h
  | true =>
    have hcode : c.code.toList ≠ [] ∧ c.code.toList.all Char.isDigit = true := by cases c <;> decide
    have hzero : ['0'].all Char.isDigit = true := by decide
    have hbegin : "\x1b[".toList = ['\x1b', '['] := by decide
    have hm : "m".toList = ['m'] := by decide
    have hend : "\x1b[0m".toList = ['\x1b', '[', '0', 'm'] := by decide
    have htext : (paint true c word).toList ++ rest =
        '\x1b' :: '[' :: (c.code.toList ++ 'm' :: (word.toList ++ '\x1b' :: '[' :: (['0'] ++ 'm' :: rest))) := by
      simp [paint, String.toList_append, hbegin, hm, hend]
    have hbreak : Breaks ('\x1b' :: '[' :: (['0'] ++ 'm' :: rest)) := Text.breaks_cons (by decide) _
    rw [htext, Text.uncoloured_sequence hcode.1 (List.all_eq_true.mp hcode.2), Text.uncoloured_append hbreak,
      Text.uncoloured_sequence (by simp) (List.all_eq_true.mp hzero)]

/-- A line with one word that may be coloured. -/
theorem uncoloured_line (colours : Bool) (c : Colour) (before word after : String) (hbefore : '\x1b' ∉ before.toList)
    (hafter : Breaks after.toList) :
    uncoloured (before ++ (paint colours c word ++ after)).toList =
      uncoloured (before ++ (paint false c word ++ after)).toList := by
  have hline : ∀ b, uncoloured (before ++ (paint b c word ++ after)).toList =
      before.toList ++ (uncoloured word.toList ++ uncoloured after.toList) := by
    intro b
    rw [String.toList_append, String.toList_append, Text.uncoloured_append_of_not_mem hbefore,
      uncoloured_paint b c word hafter]
  rw [hline, hline]

/-! ## Reports without colours -/

/-- The lines of a report without their escape sequences. -/
def bareLines (colours : Bool) (r : Report) : List (List Char) :=
  (r.humanLines colours).map fun line => uncoloured line.toList

theorem uncoloured_call (colours : Bool) (r : Report) :
    uncoloured (paint colours .bold r.call).toList = uncoloured (paint false .bold r.call).toList := by
  have hline := uncoloured_line colours .bold "" r.call "" (by decide) Text.breaks_nil
  simpa using hline

/-- An entry is a word and a text, and what stands between the two begins with no rest of a sequence. -/
theorem uncoloured_entry (colours : Bool) (c : Colour) (word between text : String) {d : Char}
    (hbetween : between.toList.head? = some d) (hd : d ≠ '[' ∧ d.isDigit = false ∧ d ≠ 'm') :
    uncoloured ("  " ++ paint colours c word ++ between ++ text).toList =
      uncoloured ("  " ++ paint false c word ++ between ++ text).toList := by
  have hbreaks : Breaks (between ++ text).toList := by
    obtain ⟨cs, hcs⟩ := List.head?_eq_some_iff.mp hbetween
    rw [String.toList_append, hcs]
    exact Text.breaks_cons hd _
  have hline := uncoloured_line colours c "  " word (between ++ text) (by decide) hbreaks
  simpa only [String.append_assoc] using hline

theorem uncoloured_messageLines (colours : Bool) (m : Message) :
    (messageLines colours m).map (fun line => uncoloured line.toList) =
      (messageLines false m).map fun line => uncoloured line.toList := by
  have hfirst := uncoloured_entry colours (levelColour m.level) m.level.name ": " ((textLines m.text).headD "")
    rfl (by decide)
  simp only [messageLines, List.map_cons, hfirst]

theorem uncoloured_ending (colours : Bool) (result : Result) :
    uncoloured ("  " ++ ending colours result).toList = uncoloured ("  " ++ ending false result).toList := by
  have hentry := fun c word text => uncoloured_entry colours c word " " text rfl (by decide)
  have hword := fun c word => uncoloured_line colours c "  " word "" (by decide) Text.breaks_nil
  cases result with
  | error e => simpa only [ending, String.append_assoc] using hentry .red "error:" e.message
  | ok o =>
    cases o with
    | loaded path => simpa only [ending, String.append_assoc] using hentry .green "loaded" path.text
    | notLoaded => simpa only [ending, String.append_empty] using hword .yellow "not loaded"
    | ignored => simpa only [ending, String.append_empty] using hword .grey "ignored"

theorem bareLines_eq (colours : Bool) (r : Report) : bareLines colours r = bareLines false r := by
  have hmessages : (r.messages.flatMap (messageLines colours)).map (fun line => uncoloured line.toList) =
      (r.messages.flatMap (messageLines false)).map fun line => uncoloured line.toList := by
    simp only [List.map_flatMap, uncoloured_messageLines colours]
  have hgenerated := fun p : Path => uncoloured_entry colours .cyan "generated" " " p.text rfl (by decide)
  have hbinding := fun name value => uncoloured_entry colours .cyan name " = " value rfl (by decide)
  simp only [bareLines, humanLines, List.map_append, List.map_cons, List.map_map, List.map_nil, Function.comp_def,
    hmessages, hgenerated, hbinding, uncoloured_call colours, uncoloured_ending colours]

/-- Colours leave nothing behind, even in a report that has sequences of its own. -/
theorem uncoloured_human (colours : Bool) (r : Report) :
    uncoloured (human colours r).toList = uncoloured (human false r).toList := by
  have hfeed : "\n".toList = ['\n'] := by decide
  have hlines : ∀ b, uncoloured (human b r).toList = ['\n'].intercalate (bareLines b r) := by
    intro b
    rw [human, String.toList_intercalate, hfeed, Text.uncoloured_intercalate, List.map_map]
    rfl
  rw [hlines, hlines, bareLines_eq]

/-! ## Strings of a report -/

def failureStrings : Failure → List String
  | .unknownArgument text => [text]
  | .exportFilePolicy path => [path.text]
  | .fileNotFound specifier => [specifier]
  | .argumentCount | .duplicateModifier _ | .missingValue => []

def resultStrings : Result → List String
  | .ok (.loaded path) => [path.text]
  | .ok .notLoaded | .ok .ignored => []
  | .error e => failureStrings e

/-- All texts that a report holds. -/
def strings (r : Report) : List String :=
  r.args ++ resultStrings r.result ++ r.messages.map Message.text ++
    r.bindings.entries.flatMap (fun (name, value) => [name, value]) ++ r.loaded.map Path.text ++
    r.generated.map Path.text

/-- No escape character stands in the text. -/
def Clean (s : String) : Prop := '\x1b' ∉ s.toList

instance (s : String) : Decidable (Clean s) := inferInstanceAs (Decidable (¬ _))

theorem clean_append {s t : String} : Clean (s ++ t) ↔ Clean s ∧ Clean t := by
  simp [Clean, String.toList_append]

theorem clean_intercalate {sep : String} {texts : List String} (hsep : Clean sep) (h : ∀ s ∈ texts, Clean s) :
    Clean (sep.intercalate texts) := by
  induction texts with
  | nil => simp [Clean]
  | cons s texts ih =>
    obtain ⟨hs, htexts⟩ := List.forall_mem_cons.mp h
    cases texts with
    | nil => simpa using hs
    | cons t texts =>
      rw [String.intercalate_cons_cons, clean_append, clean_append]
      exact ⟨⟨hs, hsep⟩, ih htexts⟩

theorem clean_argument {a : String} (h : Clean a) : Clean (argument a) := by
  unfold argument
  split
  · simp only [clean_append, h, and_true]
    decide
  · exact h

theorem clean_textLine {text line : String} (h : Clean text) (hline : line ∈ textLines text) : Clean line := by
  obtain ⟨cs, hcs, rfl⟩ := List.mem_map.mp hline
  unfold Clean
  rw [String.toList_ofList]
  intro hmem
  apply h
  have htrimmed := Text.mem_of_mem_lines hcs hmem
  unfold Text.trimEndChars at htrimmed
  exact List.mem_reverse.mp ((List.dropWhile_sublist _).subset (List.mem_reverse.mp htrimmed))

theorem clean_call {r : Report} (h : ∀ a ∈ r.args, Clean a) : Clean r.call := by
  have hargs : ∀ s ∈ r.args.map argument, Clean s := by
    intro s hs
    obtain ⟨a, ha, rfl⟩ := List.mem_map.mp hs
    exact clean_argument (h a ha)
  unfold call
  rw [clean_append, clean_append]
  exact ⟨⟨by decide, clean_intercalate (by decide) hargs⟩, by decide⟩

theorem clean_messageLines {m : Message} (h : Clean m.text) : ∀ line ∈ messageLines false m, Clean line := by
  have hlines : ∀ line ∈ textLines m.text, Clean line := fun line hline => clean_textLine h hline
  intro line hline
  unfold messageLines at hline
  rcases List.mem_cons.mp hline with rfl | hline
  · have hname : Clean m.level.name := by cases m.level <;> decide
    have hfirst : Clean ((textLines m.text).headD "") := by
      cases hcs : textLines m.text with
      | nil => decide
      | cons first rest => exact hlines first (by simp [hcs])
    simp only [paint, clean_append]
    exact ⟨⟨⟨by decide, hname⟩, by decide⟩, hfirst⟩
  · obtain ⟨text, htext, rfl⟩ := List.mem_map.mp hline
    rw [clean_append]
    exact ⟨by decide, hlines text (List.mem_of_mem_tail htext)⟩

theorem clean_ending {result : Result} (h : ∀ s ∈ resultStrings result, Clean s) : Clean (ending false result) := by
  cases result with
  | ok o =>
    cases o with
    | loaded path =>
      simp only [ending, paint, clean_append]
      exact ⟨⟨by decide, by decide⟩, h path.text (by simp [resultStrings])⟩
    | notLoaded | ignored => decide
  | error e =>
    have hmessage : Clean e.message := by
      cases e with
      | argumentCount | missingValue => decide +kernel
      | duplicateModifier modifier => cases modifier <;> decide +kernel
      | unknownArgument text | exportFilePolicy path | fileNotFound specifier =>
        simp only [resultStrings, failureStrings, List.forall_mem_singleton] at h
        exact clean_append.mpr ⟨by decide +kernel, h⟩
    simp only [ending, paint, clean_append]
    exact ⟨⟨by decide, by decide⟩, hmessage⟩

theorem clean_human {r : Report} (h : ∀ s ∈ r.strings, Clean s) : Clean (human false r) := by
  simp only [strings, List.forall_mem_append, List.forall_mem_map, List.forall_mem_flatMap, List.forall_mem_cons] at h
  obtain ⟨⟨⟨⟨⟨hargs, hresult⟩, hmessages⟩, hbindings⟩, -⟩, hgenerated⟩ := h
  have hspaces : Clean "  " := by decide
  apply clean_intercalate (by decide)
  simp only [humanLines, List.forall_mem_append, List.forall_mem_cons, List.forall_mem_map,
    List.forall_mem_flatMap, paint, clean_append]
  refine ⟨⟨⟨⟨clean_call hargs, ?_⟩, ?_⟩, ?_⟩, ⟨hspaces, clean_ending hresult⟩, by simp⟩
  · exact fun m hm => clean_messageLines (hmessages m hm)
  · exact fun p hp => ⟨⟨⟨hspaces, by decide⟩, by decide⟩, hgenerated p hp⟩
  · intro e he
    obtain ⟨hname, hvalue, -⟩ := hbindings e he
    exact ⟨⟨⟨hspaces, hname⟩, by decide⟩, hvalue⟩

/-- The text without its escape sequences. -/
def withoutColours (text : String) : String := String.ofList (uncoloured text.toList)

/-- **Colours only add escape sequences.** Whatever else a report holds, deleting the sequences from its coloured
text gives its text without colours, if no escape character is in the report already. -/
theorem withoutColours_human (r : Report) (h : ∀ s ∈ r.strings, Clean s) :
    withoutColours (human true r) = human false r := by
  rw [withoutColours, uncoloured_human, Text.uncoloured_of_not_mem (clean_human h), String.ofList_toList]

/-- The rests of sequences in the texts of a report are no sequences. -/
theorem withoutColours_human_brackets :
    let r : Report :=
      { args := ["[31m", "a b"], result := .error (.fileNotFound "0m"), messages := [⟨.warning, "[0m\nm\n"⟩],
        bindings := .ofList [("[1", "m")], generated := [⟨"/b/1m"⟩] }
    (∀ s ∈ r.strings, Clean s) ∧ human true r ≠ human false r ∧ withoutColours (human true r) = human false r ∧
      human false r = "include([31m \"a b\")\n  warning: [0m\n    m\n  generated /b/1m\n  [1 = m\n" ++
        "  error: could not find load file:\n  0m" := by
  intro r
  have hclean : ∀ s ∈ r.strings, Clean s := by decide +kernel
  exact ⟨hclean, by decide +kernel, withoutColours_human r hclean, by decide +kernel⟩

end Report

end ScriptInclude
