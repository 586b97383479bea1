import ScriptInclude.Proofs.Dictionary
import ScriptInclude.Proofs.JsonReading
import ScriptInclude.Report.Json

/-!
# Reports as JSON

A report can be read off its JSON text: two reports with one text are the same report. What a program
reads there agrees with itself, so the flag and the counts need not be computed again.
-/

namespace ScriptInclude

namespace Json

/-! ## Values are told apart by their shapes -/

mutual
theorem eq_of_shape_eq {j k : Json} (h : j.shape = k.shape) : j = k := by
  cases j <;> cases k <;> simp only [shape, Shape.bool.injEq, Shape.number.injEq, Shape.string.injEq,
    Option.some.injEq, Shape.array.injEq, Shape.object.injEq, reduceCtorEq] at h
  case null.null => rfl
  case bool.bool => rw [h]
  case number.number => rw [h]
  case string.string => rw [h]
  case array.array => rw [eq_of_shapes_eq h]
  case object.object => rw [eq_of_memberShapes_eq h]

theorem eq_of_shapes_eq {xs ys : List Json} (h : shapes xs = shapes ys) : xs = ys := by
  match xs, ys with
  | [], [] => rfl
  | x :: xs, y :: ys =>
    simp only [shapes, List.cons.injEq] at h
    rw [eq_of_shape_eq h.1, eq_of_shapes_eq h.2]

theorem eq_of_memberShapes_eq {ms ns : List (String × Json)} (h : memberShapes ms = memberShapes ns) : ms = ns := by
  match ms, ns with
  | [], [] => rfl
  | (a, x) :: ms, (b, y) :: ns =>
    simp only [memberShapes, List.cons.injEq, Prod.mk.injEq, Option.some.injEq] at h
    rw [h.1.1, eq_of_shape_eq h.1.2, eq_of_memberShapes_eq h.2]
end

/-- The member of an object with that name. -/
def Shape.member? (name : String) : Shape → Option Shape
  | .object members => members.lookup (some name)
  | _ => none

end Json

theorem Level.ofName?_name (l : Level) : ofName? l.name = some l := by cases l <;> rfl

theorem Level.name_injective : Function.Injective Level.name := by
  intro a b h
  have hread : ofName? a.name = ofName? b.name := congrArg ofName? h
  rwa [ofName?_name, ofName?_name, Option.some.injEq] at hread

theorem Message.toJson_injective : Function.Injective Message.toJson := by
  rintro ⟨a, x⟩ ⟨b, y⟩ h
  simp only [toJson, Json.object.injEq, List.cons.injEq, Prod.mk.injEq, Json.string.injEq] at h
  obtain ⟨⟨-, hlevel⟩, ⟨-, htext⟩, -⟩ := h
  rw [Level.name_injective hlevel, htext]

namespace Report

open Json (Shape Plain)

/-! ## The result -/

theorem texts_injective : Function.Injective texts := by
  intro xs ys h
  have hmap : xs.map Json.string = ys.map Json.string := Json.array.inj h
  exact List.map_injective_iff.mpr (fun _ _ => Json.string.inj) hmap

theorem pathTexts_injective : Function.Injective fun paths : List Path => texts (paths.map Path.text) := by
  intro ps qs h
  refine List.map_injective_iff.mpr ?_ (texts_injective h)
  rintro ⟨_⟩ ⟨_⟩ rfl
  rfl

theorem outcomeJson_injective : Function.Injective outcomeJson := by
  intro a b h
  cases a <;> cases b <;> simp [outcomeJson] at h ⊢
  case loaded.loaded p q => cases p; cases q; exact congrArg Path.mk h

theorem failureJson_injective : Function.Injective failureJson := by
  intro e f h
  simp only [failureJson, Json.object.injEq, List.cons.injEq, Prod.mk.injEq, Json.string.injEq] at h
  obtain ⟨⟨-, hkind⟩, ⟨-, hmessage⟩, -⟩ := h
  -- errors of one kind; what such an error carries is the end of its text
  cases e <;> cases f <;> simp [Failure.kind] at hkind
  case argumentCount.argumentCount => rfl
  case missingValue.missingValue => rfl
  case duplicateModifier.duplicateModifier a b =>
    cases a <;> cases b <;> first | rfl | exact absurd hmessage (by decide)
  case unknownArgument.unknownArgument a b => rw [(String.append_right_inj _).mp hmessage]
  case fileNotFound.fileNotFound a b => rw [(String.append_right_inj _).mp hmessage]
  case exportFilePolicy.exportFilePolicy p q =>
    have htext : p.text = q.text := (String.append_right_inj _).mp hmessage
    cases p
    cases q
    exact congrArg (Failure.exportFilePolicy ⟨·⟩) htext

theorem resultMember_injective : Function.Injective resultMember := by
  intro a b h
  cases a <;> cases b <;> simp [resultMember] at h ⊢
  case error.error => exact failureJson_injective h
  case ok.ok => exact outcomeJson_injective h

/-! ## The report -/

theorem toJson_injective : Function.Injective toJson := by
  intro r r' h
  obtain ⟨args, result, messages, bindings, loaded, generated⟩ := r
  obtain ⟨args', result', messages', bindings', loaded', generated'⟩ := r'
  simp only [toJson, Json.object.injEq, List.cons.injEq, Prod.mk.injEq, Json.array.injEq, true_and] at h
  obtain ⟨hargs, -, hresult, hmessages, hbindings, hloaded, hgenerated, -⟩ := h
  have hargs := texts_injective hargs
  have hresult := resultMember_injective hresult
  have hmessages := List.map_injective_iff.mpr Message.toJson_injective hmessages
  have hloaded := pathTexts_injective hloaded
  have hgenerated := pathTexts_injective hgenerated
  have hbindings : bindings = bindings' := by
    refine Dictionary.ext (List.map_injective_iff.mpr ?_ hbindings)
    rintro ⟨a, x⟩ ⟨b, y⟩ hentry
    cases hentry
    rfl
  rw [hargs, hresult, hmessages, hbindings, hloaded, hgenerated]

theorem plain_texts (xs : List String) : (texts xs).Plain := by
  refine .array fun item hitem => ?_
  obtain ⟨text, -, rfl⟩ := List.mem_map.mp hitem
  exact .string text

theorem plain_resultMember (result : Result) : (resultMember result).2.Plain := by
  rcases result with e | o
  · refine .object fun m hm => ?_
    rcases List.mem_pair.mp hm with rfl | rfl <;> exact .string _
  · cases o <;> refine .object fun m hm => ?_
    case loaded =>
      rcases List.mem_pair.mp hm with rfl | rfl <;> exact .string _
    all_goals
      rw [List.mem_singleton.mp hm]
      exact .string _

theorem plain_message (m : Message) : m.toJson.Plain := by
  refine .object fun x hx => ?_
  rcases List.mem_pair.mp hx with rfl | rfl <;> exact .string _

theorem plain_statsJson (r : Report) : r.statsJson.Plain := by
  refine .object fun m hm => ?_
  simp only [List.mem_cons, List.not_mem_nil, or_false] at hm
  rcases hm with rfl | rfl | rfl <;> exact .number _

theorem plain_toJson (r : Report) : r.toJson.Plain := by
  refine .object fun m hm => ?_
  simp only [List.mem_cons, List.not_mem_nil, or_false] at hm
  rcases hm with rfl | rfl | rfl | rfl | rfl | rfl | rfl | rfl
  · exact plain_texts r.args
  · exact .bool _
  · exact plain_resultMember r.result
  · refine .array fun item hitem => ?_
    obtain ⟨message, -, rfl⟩ := List.mem_map.mp hitem
    exact plain_message message
  · refine .object fun m hm => ?_
    obtain ⟨⟨name, value⟩, -, rfl⟩ := List.mem_map.mp hm
    exact .string value
  · exact plain_texts _
  · exact plain_texts _
  · exact plain_statsJson r

theorem read?_jsonText (r : Report) : Shape.read? r.jsonText = some r.toJson.shape := Json.read?_pretty (plain_toJson r)

/-! ## Flag and counts -/

/-- How many of the messages have that level. -/
def listed (messages : List Shape) (level : Level) : Nat :=
  messages.countP fun m => (m.member? "level").bind Message.levelOf? == some level

/-- The counts that go with the messages. -/
def statsOf (messages : List Shape) : Shape :=
  .object
    [(some "fatal_errors", .number (toString (listed messages .fatalError))),
      (some "warnings", .number (toString (listed messages .warning))),
      (some "author_warnings", .number (toString (listed messages .authorWarning)))]

/-- The flag says which of two members there is, and the counts are those of the messages. -/
structure Consistent (x : Shape) : Prop where
  object : ∃ members, x = .object members ∧ (members.map Prod.fst).Nodup
  success : ∃ b, x.member? "success" = some (.bool b) ∧
    (b = true ↔ (x.member? "outcome").isSome ∧ x.member? "error" = none)
  stats : ∃ messages, x.member? "messages" = some (.array messages) ∧ x.member? "stats" = some (statsOf messages)

theorem listed_shapes (ms : List Message) (level : Level) :
    listed (Json.shapes (ms.map Message.toJson)) level = ms.countP (·.level == level) := by
  rw [Json.shapes_eq_map, List.map_map, listed, List.countP_map]
  refine List.countP_congr fun m _ => ?_
  have hlevel : ((m.toJson.shape).member? "level").bind Message.levelOf? = some m.level := Level.ofName?_name m.level
  simp [hlevel]

theorem shape_statsJson (r : Report) :
    r.statsJson.shape = statsOf (Json.shapes (r.messages.map Message.toJson)) := by
  simp only [statsOf, listed_shapes]
  rfl

theorem consistent_shape (r : Report) : Consistent r.toJson.shape := by
  have hstats := congrArg some (shape_statsJson r)
  obtain ⟨args, result, messages, bindings, loaded, generated⟩ := r
  cases result with
  | error e =>
    refine ⟨⟨_, rfl, by simp [Json.memberShapes, resultMember]⟩, ⟨false, rfl, ?_⟩, ⟨_, rfl, hstats⟩⟩
    simp [Shape.member?, toJson, Json.shape, Json.memberShapes, resultMember, List.lookup_cons]
  | ok o =>
    refine ⟨⟨_, rfl, by simp [Json.memberShapes, resultMember]⟩, ⟨true, rfl, ?_⟩, ⟨_, rfl, hstats⟩⟩
    simp [Shape.member?, toJson, Json.shape, Json.memberShapes, resultMember, List.lookup_cons]

/-- **A report is read off its JSON text, where flag and counts agree with the rest.** -/
theorem jsonText_faithful :
    Function.Injective jsonText ∧ ∀ r : Report, ∃ x, Shape.read? r.jsonText = some x ∧ Consistent x := by
  constructor
  · intro r r' h
    have hread := (read?_jsonText r).symm.trans ((congrArg Shape.read? h).trans (read?_jsonText r'))
    exact toJson_injective (Json.eq_of_shape_eq (Option.some.inj hread))
  · intro r
    exact ⟨_, read?_jsonText r, consistent_shape r⟩

end Report

end ScriptInclude
