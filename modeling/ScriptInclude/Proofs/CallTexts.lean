import ScriptInclude.Proofs.Lines
import ScriptInclude.Report.Basic

/-!
# The text of a call

A report shows the call that it is about. Who reads the text as a script is read finds the arguments again: one that
begins with a quote ends at the next quote, any other one at the next blank. Quotes in an argument are written as
they are, though, and may be taken for the ones around an argument.
-/

namespace ScriptInclude

/-! ## Reading a call -/

/-- Where a reader is: before an argument, inside of one, or behind the quote at its end. -/
inductive Reading where
  | start
  | bare (read : List Char)
  | quoted (read : List Char)
  | closed (read : List Char)

namespace Reading

def arguments? : Reading → List Char → Option (List String)
  | .start, [] => none
  | .start, c :: cs =>
    if c = '"' then arguments? (.quoted []) cs
    else if c = ' ' then none
    else arguments? (.bare [c]) cs
  | .bare read, [] => some [String.ofList read]
  | .bare read, c :: cs =>
    if c = ' ' then (arguments? .start cs).map (String.ofList read :: ·) else arguments? (.bare (read ++ [c])) cs
  | .quoted _, [] => none
  | .quoted read, c :: cs => if c = '"' then arguments? (.closed read) cs else arguments? (.quoted (read ++ [c])) cs
  | .closed read, [] => some [String.ofList read]
  | .closed read, c :: cs => if c = ' ' then (arguments? .start cs).map (String.ofList read :: ·) else none

end Reading

/-- The arguments that are read in the text of a call. -/
def argumentsOf? (text : String) : Option (List String) :=
  (Text.between? "include(" ")" text.toList).bind fun inner =>
    if inner = [] then some [] else Reading.start.arguments? inner

/-! ## Arguments that can be read -/

namespace Report

/-- No quote stands in the argument where it would count. -/
def Plain (a : String) : Prop := if a = "" ∨ ' ' ∈ a.toList then '"' ∉ a.toList else a.toList.head? ≠ some '"'

instance (a : String) : Decidable (Plain a) := inferInstanceAs (Decidable (ite _ _ _))

theorem plain_of_not_mem {cs : List Char} (h : '"' ∉ cs) : Plain (String.ofList cs) := by
  unfold Plain
  rw [String.toList_ofList]
  split
  · exact h
  · intro hhead
    exact h (List.mem_of_head? hhead)

theorem plain_of_bare {cs : List Char} (hne : cs ≠ []) (hblank : ' ' ∉ cs) (hquote : cs.head? ≠ some '"') :
    Plain (String.ofList cs) := by
  unfold Plain
  rw [String.toList_ofList, if_neg]
  · exact hquote
  · simp [hblank, hne]

/-- The text between the parentheses of a call. -/
def written (args : List String) : List Char := [' '].intercalate ((args.map argument).map String.toList)

end Report

namespace Reading

open Report (Plain)

variable {cs read rest : List Char} {args : List String}

/-- What is read already can be the beginning of a plain argument. -/
def Ok : Reading → Prop
  | .start => True
  | .bare read => read ≠ [] ∧ ' ' ∉ read ∧ read.head? ≠ some '"'
  | .quoted read | .closed read => '"' ∉ read

theorem plain_of_arguments? {r : Reading} (hr : r.Ok) (h : r.arguments? cs = some args) : ∀ a ∈ args, Plain a := by
  fun_induction arguments? r cs generalizing args with
  | case1 => cases h
  | case2 cs ih => exact ih (by simp [Ok]) h
  | case3 => cases h
  | case4 c cs hquote hblank ih => exact ih (by simp [Ok, hquote, Ne.symm hblank]) h
  | case5 read =>
    cases h
    simpa using Report.plain_of_bare hr.1 hr.2.1 hr.2.2
  | case6 read cs ih =>
    obtain ⟨later, hlater, rfl⟩ := Option.map_eq_some_iff.mp h
    exact List.forall_mem_cons.mpr ⟨Report.plain_of_bare hr.1 hr.2.1 hr.2.2, ih trivial hlater⟩
  | case7 read c cs hblank ih =>
    refine ih ?_ h
    obtain ⟨hne, hblanks, hquote⟩ := hr
    refine ⟨by simp, by simp [hblanks, Ne.symm hblank], ?_⟩
    rw [List.head?_append_of_ne_nil _ hne]
    exact hquote
  | case8 => cases h
  | case9 read cs ih => exact ih hr h
  | case10 read c cs hquote ih => exact ih (by simpa [Ok, Ne.symm hquote] using hr) h
  | case11 read =>
    cases h
    simpa using Report.plain_of_not_mem hr
  | case12 read cs ih =>
    obtain ⟨later, hlater, rfl⟩ := Option.map_eq_some_iff.mp h
    exact List.forall_mem_cons.mpr ⟨Report.plain_of_not_mem hr, ih trivial hlater⟩
  | case13 => cases h

/-! ## Reading what was written -/

theorem arguments?_bare_append (h : ' ' ∉ cs) :
    (bare read).arguments? (cs ++ rest) = (bare (read ++ cs)).arguments? rest := by
  induction cs generalizing read with
  | nil => simp
  | cons c cs ih =>
    obtain ⟨hc, hcs⟩ := not_or.mp (mt List.mem_cons.mpr h)
    rw [List.cons_append, arguments?, if_neg (Ne.symm hc), ih hcs, List.append_assoc, List.singleton_append]

theorem arguments?_quoted_append (h : '"' ∉ cs) :
    (quoted read).arguments? (cs ++ '"' :: rest) = (closed (read ++ cs)).arguments? rest := by
  induction cs generalizing read with
  | nil => simp [arguments?]
  | cons c cs ih =>
    obtain ⟨hc, hcs⟩ := not_or.mp (mt List.mem_cons.mpr h)
    rw [List.cons_append, arguments?, if_neg (Ne.symm hc), ih hcs, List.append_assoc, List.singleton_append]

/-- An argument has ended where the text ends or goes on with a blank. -/
theorem arguments?_bare_eq_closed (hrest : ∀ c ∈ rest.head?, c = ' ') :
    (bare read).arguments? rest = (closed read).arguments? rest := by
  cases rest with
  | nil => rfl
  | cons c rest =>
    obtain rfl : c = ' ' := hrest c rfl
    rfl

theorem arguments?_argument {a : String} (ha : Plain a) (hrest : ∀ c ∈ rest.head?, c = ' ') :
    start.arguments? ((Report.argument a).toList ++ rest) = (closed a.toList).arguments? rest := by
  unfold Plain at ha
  unfold Report.argument
  by_cases hquoted : a = "" ∨ ' ' ∈ a.toList
  · have hsign : "\"".toList = ['"'] := by decide
    rw [if_pos hquoted] at ha ⊢
    rw [String.toList_append, String.toList_append, hsign, List.append_assoc, List.append_assoc,
      List.singleton_append, List.singleton_append, arguments?, if_pos rfl, arguments?_quoted_append ha, List.nil_append]
  · rw [if_neg hquoted] at ha ⊢
    obtain ⟨hne, hblank⟩ := not_or.mp hquoted
    cases hcs : a.toList with
    | nil => exact absurd (String.toList_eq_nil_iff.mp hcs) hne
    | cons c cs =>
      rw [hcs] at ha hblank
      obtain ⟨hc, hcs⟩ := not_or.mp (mt List.mem_cons.mpr hblank)
      have hquote : c ≠ '"' := by simpa using ha
      rw [List.cons_append, arguments?, if_neg hquote, if_neg (Ne.symm hc), arguments?_bare_append hcs,
        List.singleton_append, arguments?_bare_eq_closed hrest]

theorem arguments?_written (hne : args ≠ []) (h : ∀ a ∈ args, Plain a) :
    start.arguments? (Report.written args) = some args := by
  unfold Report.written
  induction args with
  | nil => exact absurd rfl hne
  | cons a args ih =>
    obtain ⟨ha, hargs⟩ := List.forall_mem_cons.mp h
    cases args with
    | nil =>
      have hread : start.arguments? ((Report.argument a).toList ++ []) = _ := arguments?_argument ha (by simp)
      simpa [arguments?] using hread
    | cons b args =>
      have hlater := ih (List.cons_ne_nil b args) hargs
      simp only [List.map_cons] at hlater ⊢
      rw [List.intercalate_cons_cons, List.append_assoc, List.singleton_append, arguments?_argument ha (by simp),
        arguments?, if_pos rfl, hlater, String.ofList_toList]
      rfl

end Reading

/-! ## The text of a call -/

theorem plain_of_argumentsOf? {text : String} {args : List String} (h : argumentsOf? text = some args) :
    ∀ a ∈ args, Report.Plain a := by
  obtain ⟨inner, -, hread⟩ := Option.bind_eq_some_iff.mp h
  split at hread
  · cases hread
    simp
  · exact Reading.plain_of_arguments? (r := .start) trivial hread

namespace Report

theorem argument_ne_empty (a : String) : argument a ≠ "" := by
  unfold argument
  split
  · simp
  · next h => exact (not_or.mp h).1

theorem written_eq_nil_iff {args : List String} : written args = [] ↔ args = [] := by
  cases args with
  | nil => simp [written]
  | cons a args => cases args <;> simp [written, argument_ne_empty]

theorem toList_call (r : Report) : r.call.toList = "include(".toList ++ written r.args ++ ")".toList := by
  have hblank : " ".toList = [' '] := by decide
  unfold call written
  rw [String.toList_append, String.toList_append, String.toList_intercalate, hblank]

theorem argumentsOf?_call {r : Report} (h : ∀ a ∈ r.args, Plain a) : argumentsOf? r.call = some r.args := by
  unfold argumentsOf?
  rw [Text.between?_eq_some.mpr (toList_call r), Option.bind_some]
  by_cases hargs : r.args = []
  · rw [if_pos (written_eq_nil_iff.mpr hargs), hargs]
  · rw [if_neg (fun hnil => hargs (written_eq_nil_iff.mp hnil))]
    exact Reading.arguments?_written hargs h

/-! ## Calls with one text -/

/-- The words that an argument is written in. -/
def words (a : String) : List (List Char) := Text.pieces ' ' (argument a).toList

theorem pieces_written {args : List String} (hne : args ≠ []) : Text.pieces ' ' (written args) = args.flatMap words := by
  have htexts : (args.map argument).map String.toList ≠ [] := by simpa using hne
  rw [written, Text.pieces_intercalate_eq_flatMap ' ' htexts, List.flatMap_map, List.flatMap_map]
  rfl

theorem join_words (args : List String) : Text.join [' '] (args.flatMap words) = written args := by
  by_cases hargs : args = []
  · simp [hargs, written, Text.join]
  · rw [← pieces_written hargs, Text.join_pieces]

theorem written_eq_iff {args args' : List String} :
    written args = written args' ↔ args.flatMap words = args'.flatMap words := by
  constructor
  · intro h
    by_cases hargs : args = []
    · have hargs' : args' = [] := by rw [← written_eq_nil_iff, ← h, hargs, written_eq_nil_iff]
      rw [hargs, hargs']
    · have hargs' : args' ≠ [] := by rwa [Ne, ← written_eq_nil_iff, ← h, written_eq_nil_iff]
      rw [← pieces_written hargs, ← pieces_written hargs', h]
  · intro h
    rw [← join_words, ← join_words, h]

theorem call_eq_iff {r r' : Report} : r.call = r'.call ↔ r.args.flatMap words = r'.args.flatMap words := by
  rw [← written_eq_iff, ← String.toList_inj, toList_call, toList_call, List.append_left_inj, List.append_right_inj]

/-- **A call is read as it was written** if no argument has a quote where one counts, and only then. Such calls have
one text only if their arguments are the same; calls of any kind have one text exactly if they are written in the
same words. -/
theorem argumentsOf?_call_iff (r r' : Report) :
    (argumentsOf? r.call = some r.args ↔ ∀ a ∈ r.args, Plain a) ∧
      ((∀ a ∈ r.args, Plain a) → (∀ a ∈ r'.args, Plain a) → (r.call = r'.call ↔ r.args = r'.args)) ∧
      (r.call = r'.call ↔ r.args.flatMap words = r'.args.flatMap words) := by
  refine ⟨⟨plain_of_argumentsOf?, argumentsOf?_call⟩, ?_, call_eq_iff⟩
  intro h h'
  constructor
  · intro hcall
    have hread := argumentsOf?_call h
    rw [hcall, argumentsOf?_call h'] at hread
    exact (Option.some.inj hread).symm
  · intro hargs
    rw [call_eq_iff, hargs]

/-- Quotes and parentheses that do not count, and a blank that does. -/
theorem argumentsOf?_call_with_quotes :
    let r : Report := { args := ["a b", "c\"\")", ""], result := .ok .ignored }
    let r' : Report := { args := ["a", "b", "c\"\")", ""], result := .ok .ignored }
    argumentsOf? r.call = some r.args ∧ r.call ≠ r'.call := by
  intro r r'
  have hplain : ∀ a ∈ r.args, Plain a := by decide
  have hplain' : ∀ a ∈ r'.args, Plain a := by decide
  obtain ⟨hread, hcall, -⟩ := argumentsOf?_call_iff r r'
  refine ⟨hread.mpr hplain, ?_⟩
  intro hsame
  exact absurd ((hcall hplain hplain').mp hsame) (by decide)

/-- Two quotes look like an empty argument, and two arguments like one with a blank in it. -/
theorem call_eq_of_other_args :
    let r : List String → Report := fun args => { args := args, result := .ok .ignored }
    (r ["\"\"", "OPTIONAL"]).call = "include(\"\" OPTIONAL)" ∧ (r ["", "OPTIONAL"]).call = "include(\"\" OPTIONAL)" ∧
      (r ["\"a", "b\""]).call = (r ["a b"]).call ∧ ["\"\"", "OPTIONAL"] ≠ ["", "OPTIONAL"] ∧
      ["\"a", "b\""] ≠ ["a b"] := by
  decide +kernel

end Report

end ScriptInclude
