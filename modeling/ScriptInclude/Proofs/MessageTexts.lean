import ScriptInclude.Proofs.JsonReports

/-!
# Messages read back

Compact JSON has nothing between its parts, and is read back like indented JSON. A message is an object of two
texts, so whatever stands in its text, in either layout the same message is read again.
-/

namespace ScriptInclude

/-! ## Compact values -/

namespace Json

theorem compactItems_eq (items : List Json) : compactItems items = items.map compact := by
  induction items with
  | nil => rfl
  | cons item items ih => rw [compactItems, ih, List.map_cons]

def compactMember (m : String × Json) : String := quote m.1 ++ ":" ++ compact m.2

theorem compactMembers_eq (members : List (String × Json)) : compactMembers members = members.map compactMember := by
  induction members with
  | nil => rfl
  | cons m members ih => rw [compactMembers, ih, List.map_cons, compactMember]

theorem toList_commas (left right : String) (texts : List String) :
    (left ++ ",".intercalate texts ++ right).toList =
      left.toList ++ (separated (texts.map String.toList) ++ right.toList) := by
  have hcomma : ",".toList = [','] := rfl
  rw [String.toList_append, String.toList_append, String.toList_intercalate, hcomma, List.append_assoc, separated]

theorem readsAs_compact {j : Json} (h : j.Plain) : ReadsAs j.compact.toList j.shape := by
  have hblank : ∀ c ∈ ([] : List Char), isSpace c = true := by simp
  induction h with
  | null => exact readsAs_null
  | bool b => exact readsAs_bool b
  | number n => exact readsAs_natural n
  | string text => exact readsAs_string text
  | @array items _ ih =>
    rw [compact, compactItems_eq, shape, shapes_eq_map]
    cases items with
    | nil => exact readsAs_emptyArray
    | cons item items =>
      rw [toList_commas, List.map_map]
      refine readsAs_array ?_ (by simp) hblank
      rw [List.forall₂_map_left_iff, List.forall₂_map_right_iff, List.forall₂_same]
      exact ih
  | @object members _ ih =>
    rw [compact, compactMembers_eq, shape, memberShapes_eq_map]
    cases members with
    | nil => exact readsAs_emptyObject
    | cons m members =>
      rw [toList_commas, List.map_map]
      refine readsAs_object ?_ (by simp) hblank
      rw [List.forall₂_map_left_iff, List.forall₂_map_right_iff, List.forall₂_same]
      intro m hm
      have hmember := ReadsAsMember.intro m.1 hblank (ih m hm)
      simpa [compactMember, String.toList_append] using hmember

theorem read?_compact {j : Json} (h : j.Plain) : Shape.read? j.compact = some j.shape :=
  read?_of_readsAs (readsAs_compact h)

end Json

/-! ## Messages -/

namespace Message

open Json (Shape)

theorem levelOf?_name (l : Level) : levelOf? (.string (some l.name)) = some l := Level.ofName?_name l

/-- The two members are found whatever level and text there are. -/
theorem ofShape?_toJson (m : Message) : ofShape? m.toJson.shape = some m := by
  simp [toJson, Json.shape, Json.memberShapes, ofShape?, ofMembers?, levelOf?_name, textOf?]

/-- **A message is read back from its JSON text**, compact or indented. -/
theorem ofJsonText?_jsonText (m : Message) :
    ofJsonText? m.jsonText = some m ∧ ofJsonText? m.toJson.pretty = some m := by
  have hplain : m.toJson.Plain := Report.plain_message m
  constructor
  · rw [ofJsonText?, jsonText, Json.read?_compact hplain, Option.bind_some, ofShape?_toJson]
  · rw [ofJsonText?, Json.read?_pretty hplain, Option.bind_some, ofShape?_toJson]

end Message

end ScriptInclude
