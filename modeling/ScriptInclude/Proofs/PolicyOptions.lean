import ScriptInclude.CommandLine
import ScriptInclude.Proofs.Lines
import ScriptInclude.Proofs.Trimming

/-!
# What policy options set

The values of all policy options are cut at commas, and each piece sets a policy or is malformed. So only the row of
pieces counts, not how the pieces are grouped into options, and settings that are written down with blanks around
their sides and malformed pieces between them are read back as they were.
-/

namespace ScriptInclude

namespace CommandLine

/-! ## Writing settings down -/

/-- A text that can stand on one side of a setting. -/
structure IsSide (s : String) : Prop where
  ne_empty : s ≠ ""
  trimmed : Text.Trimmed s.toList
  noComma : ',' ∉ s.toList

/-- A status may have signs, as only the first sign of a piece parts it. -/
structure IsSetting (e : String × String) : Prop where
  id : IsSide e.1
  status : IsSide e.2
  noSign : '=' ∉ e.1.toList

instance (s : String) : Decidable (IsSide s) :=
  decidable_of_iff (s ≠ "" ∧ Text.Trimmed s.toList ∧ ',' ∉ s.toList)
    ⟨fun h => ⟨h.1, h.2.1, h.2.2⟩, fun h => ⟨h.1, h.2, h.3⟩⟩

instance (e : String × String) : Decidable (IsSetting e) :=
  decidable_of_iff (IsSide e.1 ∧ IsSide e.2 ∧ '=' ∉ e.1.toList)
    ⟨fun h => ⟨h.1, h.2.1, h.2.2⟩, fun h => ⟨h.1, h.2, h.3⟩⟩

/-- The id and the status with a sign between them and blanks around either. -/
inductive Writes (e : String × String) : List Char → Prop
  | padded {left right : List Char} (hid : Text.Padded e.1.toList left) (hstatus : Text.Padded e.2.toList right) :
    Writes e (left ++ '=' :: right)

/-- A piece without a sign, or with a blank side. -/
inductive Malformed : List Char → Prop
  | noSign {piece : List Char} (h : '=' ∉ piece) : Malformed piece
  | blankId {left right : List Char} (h : Text.AllBlank left) : Malformed (left ++ '=' :: right)
  | blankStatus {left right : List Char} (hleft : '=' ∉ left) (h : Text.AllBlank right) :
    Malformed (left ++ '=' :: right)

/-- The pieces write down the settings in order, with malformed pieces anywhere among them. -/
inductive Lists : List (List Char) → List (String × String) → Prop
  | nil : Lists [] []
  | setting {e : String × String} {piece : List Char} {pieces : List (List Char)} {settings : List (String × String)}
    (he : IsSetting e) (h : Writes e piece) (rest : Lists pieces settings) : Lists (piece :: pieces) (e :: settings)
  | malformed {piece : List Char} {pieces : List (List Char)} {settings : List (String × String)}
    (hcomma : ',' ∉ piece) (h : Malformed piece) (rest : Lists pieces settings) : Lists (piece :: pieces) settings

variable {piece left right : List Char} {e : String × String} {pieces : List (List Char)}
  {settings : List (String × String)}

theorem not_comma_mem_of_writes (he : IsSetting e) (h : Writes e piece) : ',' ∉ piece := by
  obtain ⟨hid, hstatus⟩ := h
  have hleft := hid.not_mem (by decide) he.id.noComma
  have hright := hstatus.not_mem (by decide) he.status.noComma
  simp [hleft, hright]

theorem Lists.not_comma_mem (h : Lists pieces settings) : ∀ piece ∈ pieces, ',' ∉ piece := by
  induction h with
  | nil => exact List.forall_mem_nil _
  | setting he h _ ih => exact List.forall_mem_cons.mpr ⟨not_comma_mem_of_writes he h, ih⟩
  | malformed hcomma _ _ ih => exact List.forall_mem_cons.mpr ⟨hcomma, ih⟩

/-! ## Reading a piece -/

theorem setting?_of_cut (h : '=' ∉ left) :
    setting? (left ++ '=' :: right) =
      if Text.trimChars left = [] ∨ Text.trimChars right = [] then none
      else some (String.ofList (Text.trimChars left), String.ofList (Text.trimChars right)) := by
  have hcut : Text.cutFirst? '=' (left ++ '=' :: right) = some (left, right) :=
    Text.cutFirst?_eq_some_iff.mpr ⟨rfl, h⟩
  simp [setting?, hcut]

theorem setting?_of_writes (he : IsSetting e) (h : Writes e piece) : setting? piece = some e := by
  obtain ⟨hid, hstatus⟩ := h
  rw [setting?_of_cut (hid.not_mem (by decide) he.noSign), Text.trimChars_of_padded hid he.id.trimmed,
    Text.trimChars_of_padded hstatus he.status.trimmed]
  simp [he.id.ne_empty, he.status.ne_empty]

theorem setting?_of_malformed (h : Malformed piece) : setting? piece = none := by
  cases h with
  | noSign h => simp [setting?, Text.cutFirst?_eq_none_iff.mpr h]
  | blankId h => rw [setting?_of_cut (h.not_mem (by decide)), if_pos (Or.inl (Text.trimChars_eq_nil_iff.mpr h))]
  | blankStatus hleft h => rw [setting?_of_cut hleft, if_pos (Or.inr (Text.trimChars_eq_nil_iff.mpr h))]

-- Only the first sign parts a piece.
example : setting? "a = b= ".toList = some ("a", "b=") := by decide

theorem isSide_trimChars {cs : List Char} (h : ¬ Text.AllBlank cs) (hcomma : ',' ∉ cs) :
    IsSide (String.ofList (Text.trimChars cs)) := by
  constructor
  · rwa [Ne, String.ofList_eq_empty_iff, Text.trimChars_eq_nil_iff]
  · rw [String.toList_ofList]
    exact Text.trimmed_trimChars cs
  · rw [String.toList_ofList]
    exact Text.not_mem_trimChars hcomma

theorem writes_trimChars (left right : List Char) :
    Writes (String.ofList (Text.trimChars left), String.ofList (Text.trimChars right)) (left ++ '=' :: right) := by
  apply Writes.padded
  · rw [String.toList_ofList]
    exact Text.padded_trimChars left
  · rw [String.toList_ofList]
    exact Text.padded_trimChars right

/-- There is no third kind of piece. -/
theorem malformed_or_writes (hcomma : ',' ∉ piece) : Malformed piece ∨ ∃ e, IsSetting e ∧ Writes e piece := by
  cases hcut : Text.cutFirst? '=' piece with
  | none => exact Or.inl (.noSign (Text.cutFirst?_eq_none_iff.mp hcut))
  | some sides =>
    obtain ⟨left, right⟩ := sides
    obtain ⟨rfl, hleft⟩ := Text.cutFirst?_eq_some_iff.mp hcut
    by_cases hid : Text.AllBlank left
    · exact Or.inl (.blankId hid)
    by_cases hstatus : Text.AllBlank right
    · exact Or.inl (.blankStatus hleft hstatus)
    rw [List.mem_append, List.mem_cons, not_or, not_or] at hcomma
    -- Neither side is blank, so the setting is what trimming leaves of them.
    refine Or.inr ⟨_, ⟨isSide_trimChars hid hcomma.1, isSide_trimChars hstatus hcomma.2.2, ?_⟩,
      writes_trimChars left right⟩
    rw [String.toList_ofList]
    exact Text.not_mem_trimChars hleft

/-! ## Reading a row of pieces -/

theorem Lists.filterMap_setting? (h : Lists pieces settings) : pieces.filterMap setting? = settings := by
  induction h with
  | nil => rfl
  | setting he h _ ih => rw [List.filterMap_cons_some (setting?_of_writes he h), ih]
  | malformed _ h _ ih => rw [List.filterMap_cons_none (setting?_of_malformed h), ih]

theorem lists_filterMap_setting? (h : ∀ piece ∈ pieces, ',' ∉ piece) : Lists pieces (pieces.filterMap setting?) := by
  induction pieces with
  | nil => exact .nil
  | cons piece pieces ih =>
    obtain ⟨hcomma, hrest⟩ := List.forall_mem_cons.mp h
    rcases malformed_or_writes hcomma with hmalformed | ⟨e, he, hwrites⟩
    · rw [List.filterMap_cons_none (setting?_of_malformed hmalformed)]
      exact .malformed hcomma hmalformed (ih hrest)
    · rw [List.filterMap_cons_some (setting?_of_writes he hwrites)]
      exact .setting he hwrites (ih hrest)

/-! ## Options -/

/-- The pieces of all policy options, in order. -/
def policyPieces (policies : List String) : List (List Char) := policies.flatMap fun s => Text.pieces ',' s.toList

theorem policySettings_eq (c : CommandLine) : c.policySettings = (policyPieces c.policies).filterMap setting? := rfl

/-- The settings of a command line are what its pieces write down. -/
theorem policySettings_eq_iff (c : CommandLine) :
    c.policySettings = settings ↔ Lists (policyPieces c.policies) settings := by
  constructor
  · rintro rfl
    apply lists_filterMap_setting?
    intro piece hpiece
    obtain ⟨s, -, hs⟩ := List.mem_flatMap.mp hpiece
    exact Text.not_mem_of_mem_pieces hs
  · exact Lists.filterMap_setting?

/-- One option in place of many has the same pieces. Where there are none, it has an empty one, which says nothing. -/
theorem filterMap_policyPieces_intercalate (policies : List String) :
    (policyPieces [",".intercalate policies]).filterMap setting? = (policyPieces policies).filterMap setting? := by
  by_cases hnil : policies = []
  · rw [hnil]
    decide
  · have hcomma : ",".toList = [','] := by decide
    have htexts : policies.map String.toList ≠ [] := by simpa using hnil
    rw [policyPieces, List.flatMap_singleton, String.toList_intercalate, hcomma,
      Text.pieces_intercalate_eq_flatMap ',' htexts, List.flatMap_map, policyPieces]

theorem policyPieces_append (policies more : List String) :
    policyPieces (policies ++ more) = policyPieces policies ++ policyPieces more := List.flatMap_append

theorem policyPieces_of_not_mem {policies : List String} (h : ∀ s ∈ policies, ',' ∉ s.toList) :
    policyPieces policies = policies.map String.toList := by
  induction policies with
  | nil => rfl
  | cons s policies ih =>
    obtain ⟨hs, hrest⟩ := List.forall_mem_cons.mp h
    rw [← List.singleton_append, policyPieces_append, ih hrest, policyPieces, List.flatMap_singleton,
      Text.pieces_of_not_mem hs, List.map_append]
    rfl

theorem policySettings_groups (c : CommandLine) (groups : List (List String)) :
    { c with policies := groups.map ",".intercalate }.policySettings =
      { c with policies := groups.flatten }.policySettings := by
  rw [policySettings_eq, policySettings_eq]
  induction groups with
  | nil => rfl
  | cons group groups ih =>
    rw [List.map_cons, List.flatten_cons, ← List.singleton_append, policyPieces_append, policyPieces_append,
      List.filterMap_append, List.filterMap_append, filterMap_policyPieces_intercalate, ih]

/-- **Policy settings do not depend on how they are grouped.** One option with all values joined by commas says the
same as many options. Settings that are written down piece by piece, with malformed pieces among them, are read back
however the pieces are distributed over options. -/
theorem policySettings_regrouped (c : CommandLine) :
    { c with policies := [",".intercalate c.policies] }.policySettings = c.policySettings ∧
      ∀ (groups : List (List String)) (settings : List (String × String)),
        Lists (groups.flatten.map String.toList) settings →
          { c with policies := groups.map ",".intercalate }.policySettings = settings := by
  constructor
  · exact filterMap_policyPieces_intercalate c.policies
  · intro groups settings h
    have hcomma : ∀ s ∈ groups.flatten, ',' ∉ s.toList := fun s hs => h.not_comma_mem _ (List.mem_map_of_mem hs)
    rw [policySettings_groups, policySettings_eq_iff, policyPieces_of_not_mem hcomma]
    exact h

/-- A status with a sign, blanks of several kinds, malformed pieces, and options with many pieces, none and one. -/
theorem policySettings_regrouped_with_malformed :
    let groups : List (List String) := [["\tCMP0024 =\u3000NEW= OLD", "bogus", " = WARN"], [], ["CMP0001=OLD\u00a0"]]
    let settings : List (String × String) := [("CMP0024", "NEW= OLD"), ("CMP0001", "OLD")]
    Lists (groups.flatten.map String.toList) settings ∧
      ({ policies := groups.map ",".intercalate } : CommandLine).policySettings = settings := by
  intro groups settings
  have hfirst : IsSetting ("CMP0024", "NEW= OLD") := by decide
  have hsecond : IsSetting ("CMP0001", "OLD") := by decide
  have hfirstPiece : Writes ("CMP0024", "NEW= OLD") ("\tCMP0024 ".toList ++ '=' :: "\u3000NEW= OLD".toList) :=
    .padded ⟨['\t'], [' '], by decide, by decide, rfl⟩ ⟨['\u3000'], [], by decide, by decide, rfl⟩
  have hsecondPiece : Writes ("CMP0001", "OLD") ("CMP0001".toList ++ '=' :: "OLD\u00a0".toList) :=
    .padded ⟨[], [], by decide, by decide, rfl⟩ ⟨[], ['\u00a0'], by decide, by decide, rfl⟩
  have hbogus : Malformed "bogus".toList := .noSign (by decide)
  have hblank : Malformed (" ".toList ++ '=' :: " WARN".toList) := .blankId (by decide)
  have hlists : Lists (groups.flatten.map String.toList) settings :=
    .setting hfirst hfirstPiece (.malformed (by decide) hbogus (.malformed (by decide) hblank
      (.setting hsecond hsecondPiece .nil)))
  exact ⟨hlists, (policySettings_regrouped {}).2 groups settings hlists⟩

/-! ## On the command line -/

def policyOption (s : String) : String := "--policy=" ++ s

theorem splitValue_of_cut {name value : String} (h : '=' ∉ name.toList) :
    splitValue (name.toList ++ '=' :: value.toList) = (name, some value) := by
  have hcut : Text.cutFirst? '=' (name.toList ++ '=' :: value.toList) = some (name.toList, value.toList) :=
    Text.cutFirst?_eq_some_iff.mpr ⟨rfl, h⟩
  rw [splitValue, hcut]
  simp

theorem takeLong_policy (s : String) (c : CommandLine) :
    takeLong ("policy".toList ++ '=' :: s.toList) .none c = .ok (.none, { c with policies := c.policies ++ [s] }) := by
  rw [takeLong, splitValue_of_cut (by decide)]
  rfl

theorem takeAll_policyOption (s : String) (c : CommandLine) (rest : List String) :
    takeAll .none c (policyOption s :: rest) = takeAll .none { c with policies := c.policies ++ [s] } rest := by
  have hchars : (policyOption s).toList = '-' :: '-' :: ("policy".toList ++ '=' :: s.toList) := by
    rw [policyOption, String.toList_append]
    rfl
  have hlong := takeLong_policy s c
  -- Two dashes alone would end the options, so the letter after them has to be in sight.
  have hlist : "policy".toList ++ '=' :: s.toList = 'p' :: ("olicy".toList ++ '=' :: s.toList) := rfl
  rw [hlist] at hchars hlong
  rw [takeAll, hchars]
  simp only [hlong]
  rfl

theorem takeAll_policyOptions (policies : List String) (c : CommandLine) (rest : List String) :
    takeAll .none c (policies.map policyOption ++ rest) =
      takeAll .none { c with policies := c.policies ++ policies } rest := by
  induction policies generalizing c with
  | nil => simp
  | cons s policies ih =>
    rw [List.map_cons, List.cons_append, takeAll_policyOption, ih, List.append_assoc, List.singleton_append]

theorem parse_policyOptions (policies : List String) :
    parse (policies.map policyOption) = .ok { policies := policies } := by
  have htake := takeAll_policyOptions policies {} []
  rw [List.append_nil] at htake
  rw [parse, htake]
  rfl

/-- Policy options with any values are taken, and set what the pieces of the values write down. -/
theorem exists_parse_policyOptions_iff (policies : List String) :
    (∃ c, parse (policies.map policyOption) = .ok c ∧ c.policySettings = settings) ↔
      Lists (policyPieces policies) settings := by
  rw [parse_policyOptions]
  simp only [Except.ok.injEq, exists_eq_left']
  exact policySettings_eq_iff _

end CommandLine

end ScriptInclude
