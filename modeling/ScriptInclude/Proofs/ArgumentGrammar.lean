import Mathlib.Data.List.Flatten
import Mathlib.Data.List.Perm.Subperm
import ScriptInclude.Options

/-!
# The grammar of a call

The arguments of a call are its target and a few clauses, each a keyword with the value that belongs to it. Reading
goes through them with the options that are set so far; what it accepts can be said without them, by the clauses
alone. All options can be written down that do not need more clauses than there is room for.
-/

namespace ScriptInclude

theorem Keyword.ofToken?_name (k : Keyword) : ofToken? k.name = some k := by cases k <;> decide

theorem Keyword.name_of_ofToken? {token : String} {k : Keyword} (h : ofToken? token = some k) : token = k.name :=
  (eq_of_beq (List.find?_some (p := fun k : Keyword => k.name == token) h)).symm

/-! ## Clauses -/

inductive Clause where
  | optional
  | noPolicyScope
  | resultVariable (value : String)
  deriving DecidableEq

namespace Clause

def tokens : Clause → List String
  | .optional => [Keyword.optional.name]
  | .noPolicyScope => [Keyword.noPolicyScope.name]
  | .resultVariable value => [Keyword.resultVariable.name, value]

/-- The variable that a clause names; an empty value names none. -/
def named? : Clause → Option String
  | .resultVariable value => Options.variableNamed value
  | _ => none

@[simp] theorem named?_optional : optional.named? = none := rfl

@[simp] theorem named?_noPolicyScope : noPolicyScope.named? = none := rfl

@[simp] theorem named?_resultVariable (value : String) :
    (resultVariable value).named? = Options.variableNamed value := rfl

theorem named?_ne_empty (c : Clause) : c.named? ≠ some "" := by
  cases c with
  | resultVariable value =>
    rw [named?_resultVariable, Options.variableNamed]
    split <;> simp_all
  | _ => simp

/-- A variable may follow, as long as none is named. -/
def LeavesUnnamed (c later : Clause) : Prop := c.named? ≠ none → ∀ value, later ≠ .resultVariable value

/-- The clauses of a call, whatever room they take. -/
structure Admissible (cs : List Clause) : Prop where
  once : cs.count .optional ≤ 1
  settled : cs.Pairwise LeavesUnnamed

end Clause

namespace Options

/-! ## Reading clause by clause -/

/-- The options after one more clause. -/
def add (o : Options) : Clause → Options
  | .optional => { o with optional := true }
  | .noPolicyScope => { o with noPolicyScope := true }
  | .resultVariable value => { o with resultVariable := variableNamed value }

def Allows (o : Options) : Clause → Prop
  | .optional => o.optional = false
  | .noPolicyScope => True
  | .resultVariable _ => o.resultVariable = none

/-- Each clause is allowed by what stands before it. -/
def Accepts : Options → List Clause → Prop
  | _, [] => True
  | o, c :: cs => o.Allows c ∧ (o.add c).Accepts cs

theorem modify_tokens_append {o : Options} {c : Clause} (h : o.Allows c) (rest : List String) :
    modify false o (c.tokens ++ rest) = modify false (o.add c) rest := by
  cases c with
  | optional =>
    have hset : o.optional = false := h
    rw [Clause.tokens, List.singleton_append, modify.eq_def]
    simp [Keyword.ofToken?_name, hset, add]
  | noPolicyScope =>
    rw [Clause.tokens, List.singleton_append, modify.eq_def]
    simp [Keyword.ofToken?_name, add]
  | resultVariable value =>
    have hset : o.resultVariable = none := h
    rw [Clause.tokens, List.cons_append, List.singleton_append, modify]
    simp [Keyword.ofToken?_name, hset, add]

theorem modify_of_accepts {o : Options} {cs : List Clause} (h : o.Accepts cs) :
    modify false o (cs.flatMap Clause.tokens) = .ok (cs.foldl add o) := by
  induction cs generalizing o with
  | nil => rw [List.flatMap_nil, modify, List.foldl_nil]
  | cons c cs ih =>
    obtain ⟨hc, hcs⟩ := h
    rw [List.flatMap_cons, modify_tokens_append hc, ih hcs, List.foldl_cons]

theorem accepts_of_modify {lenient : Bool} {o o' : Options} {args : List String}
    (h : modify lenient o args = .ok o') (hstrict : lenient = false) :
    ∃ cs, args = cs.flatMap Clause.tokens ∧ o.Accepts cs ∧ o' = cs.foldl add o := by
  fun_induction modify lenient o args with
  | case1 lenient o => exact ⟨[], rfl, trivial, (Except.ok.inj h).symm⟩
  | case3 lenient o token rest htoken hset ih =>
    obtain ⟨cs, rfl, haccepts, rfl⟩ := ih h rfl
    refine ⟨.optional :: cs, ?_, ⟨by simpa [Allows] using hset, haccepts⟩, rfl⟩
    rw [Keyword.name_of_ofToken? htoken, List.flatMap_cons, Clause.tokens, List.singleton_append]
  | case6 lenient o token htoken hset value rest ih =>
    obtain ⟨cs, rfl, haccepts, rfl⟩ := ih h rfl
    refine ⟨.resultVariable value :: cs, ?_, ⟨by simpa [Allows] using hset, haccepts⟩, rfl⟩
    rw [Keyword.name_of_ofToken? htoken, List.flatMap_cons, Clause.tokens, List.cons_append, List.singleton_append]
  | case7 lenient o token rest htoken ih =>
    obtain ⟨cs, rfl, haccepts, rfl⟩ := ih h rfl
    refine ⟨.noPolicyScope :: cs, ?_, ⟨trivial, haccepts⟩, rfl⟩
    rw [Keyword.name_of_ofToken? htoken, List.flatMap_cons, Clause.tokens, List.singleton_append]
  | _ => simp_all

theorem modify_eq_ok_iff {o o' : Options} {args : List String} :
    modify false o args = .ok o' ↔
      ∃ cs, args = cs.flatMap Clause.tokens ∧ o.Accepts cs ∧ o' = cs.foldl add o := by
  refine ⟨fun h => accepts_of_modify h rfl, ?_⟩
  rintro ⟨cs, rfl, haccepts, rfl⟩
  exact modify_of_accepts haccepts

/-! ## Acceptance by the clauses alone -/

theorem allows_add_iff {o : Options} {c later : Clause} (h : o.Allows c) :
    (o.add c).Allows later ↔
      o.Allows later ∧ (c = .optional → later ≠ .optional) ∧ c.LeavesUnnamed later := by
  cases c <;> cases later <;> simp_all [Allows, add, Clause.LeavesUnnamed]

theorem accepts_iff {o : Options} {cs : List Clause} :
    o.Accepts cs ↔ (∀ c ∈ cs, o.Allows c) ∧
      cs.Pairwise (fun c later => c = .optional → later ≠ .optional) ∧ cs.Pairwise Clause.LeavesUnnamed := by
  induction cs generalizing o with
  | nil => simp [Accepts]
  | cons c cs ih =>
    have hcons (h : o.Allows c) : (∀ later ∈ cs, (o.add c).Allows later) ↔ (∀ later ∈ cs, o.Allows later) ∧
        (∀ later ∈ cs, c = .optional → later ≠ .optional) ∧ ∀ later ∈ cs, c.LeavesUnnamed later := by
      simp only [allows_add_iff h, ← forall₂_and]
    simp only [Accepts, List.forall_mem_cons, List.pairwise_cons, and_assoc]
    refine and_congr_right fun h => ?_
    rw [ih, hcons h]
    tauto

theorem pairwise_once_iff {cs : List Clause} :
    cs.Pairwise (fun c later => c = .optional → later ≠ .optional) ↔ cs.count .optional ≤ 1 := by
  induction cs with
  | nil => simp
  | cons c cs ih =>
    rw [List.pairwise_cons, ih, List.count_cons]
    rcases eq_or_ne c .optional with rfl | hc
    · have hnone : (∀ later ∈ cs, Clause.optional = .optional → later ≠ .optional) ↔ cs.count .optional = 0 := by
        rw [List.count_eq_zero]
        exact ⟨fun h hmem => h _ hmem rfl rfl, fun h later hmem _ heq => h (heq ▸ hmem)⟩
      rw [hnone, if_pos (beq_self_eq_true _)]
      omega
    · simp [hc]

/-- What is read into options that nothing is set in. -/
theorem accepts_iff_admissible (target : String) {cs : List Clause} :
    ({ target := target } : Options).Accepts cs ↔ Clause.Admissible cs := by
  have hall : ∀ c ∈ cs, ({ target := target } : Options).Allows c := fun c _ => by cases c <;> simp [Allows]
  rw [accepts_iff, pairwise_once_iff]
  exact ⟨fun ⟨_, honce, hsettled⟩ => ⟨honce, hsettled⟩, fun ⟨honce, hsettled⟩ => ⟨hall, honce, hsettled⟩⟩

/-- What is set after clauses that are accepted. -/
theorem foldl_add {o : Options} {cs : List Clause} (h : o.Accepts cs) :
    cs.foldl add o =
      { target := o.target
        optional := o.optional || decide (.optional ∈ cs)
        noPolicyScope := o.noPolicyScope || decide (.noPolicyScope ∈ cs)
        resultVariable := o.resultVariable.or (cs.findSome? Clause.named?) } := by
  induction cs generalizing o with
  | nil => simp
  | cons c cs ih =>
    obtain ⟨hc, hcs⟩ := h
    rw [List.foldl_cons, ih hcs]
    cases c with
    | optional => simp [add, List.findSome?_cons]
    | noPolicyScope => simp [add, List.findSome?_cons]
    | resultVariable value =>
      have hset : o.resultVariable = none := hc
      cases hv : variableNamed value <;> simp [add, hset, hv]

/-! ## The argument that is ignored -/

/-- A first modifier that is no keyword is dropped. -/
def dropIgnored : List String → List String
  | [] => []
  | token :: rest => if (Keyword.ofToken? token).isSome then token :: rest else rest

theorem length_dropIgnored_le (modifiers : List String) : (dropIgnored modifiers).length ≤ modifiers.length := by
  cases modifiers with
  | nil => exact Nat.le_refl 0
  | cons token rest =>
    rw [dropIgnored]
    split <;> simp

theorem modify_true (o : Options) (modifiers : List String) :
    modify true o modifiers = modify false o (dropIgnored modifiers) := by
  cases modifiers with
  | nil => rw [dropIgnored, modify, modify]
  | cons token rest =>
    cases htoken : Keyword.ofToken? token with
    | none => rw [modify.eq_def]; simp [dropIgnored, htoken]
    | some k =>
      rw [modify.eq_def, modify.eq_def false o (dropIgnored _)]
      cases k <;> simp [dropIgnored, htoken]

theorem dropIgnored_tokens (cs : List Clause) :
    dropIgnored (cs.flatMap Clause.tokens) = cs.flatMap Clause.tokens := by
  rcases cs with _ | ⟨_ | _ | _, cs⟩ <;> simp [Clause.tokens, dropIgnored, Keyword.ofToken?_name]

/-! ## The grammar -/

/-- `modifiers` spell the clauses `cs`. -/
structure Spells (modifiers : List String) (cs : List Clause) : Prop where
  fits : modifiers.length + 1 ≤ maxArguments
  split : dropIgnored modifiers = cs.flatMap Clause.tokens
  admissible : Clause.Admissible cs

/-- What clauses mean: the flags that occur, and the variable that is named. -/
def meaning (target : String) (cs : List Clause) : Options where
  target := target
  optional := decide (.optional ∈ cs)
  noPolicyScope := decide (.noPolicyScope ∈ cs)
  resultVariable := cs.findSome? Clause.named?

theorem parse_eq_ok_iff {args : List String} {o : Options} :
    parse args = .ok o ↔
      ∃ target modifiers cs, args = target :: modifiers ∧ Spells modifiers cs ∧ o = meaning target cs := by
  rcases args with _ | ⟨target, modifiers⟩
  · simp [parse]
  have hmeaning {cs : List Clause} (h : ({ target := target } : Options).Accepts cs) :
      cs.foldl add { target := target } = meaning target cs := by
    simp [foldl_add h, meaning]
  rw [parse]
  constructor
  · intro h
    split at h
    · simp at h
    next hfits =>
    rw [modify_true, modify_eq_ok_iff] at h
    obtain ⟨cs, hsplit, haccepts, rfl⟩ := h
    exact ⟨target, modifiers, cs, rfl, ⟨Nat.not_lt.mp hfits, hsplit, (accepts_iff_admissible target).mp haccepts⟩,
      hmeaning haccepts⟩
  · rintro ⟨_, _, cs, heq, hspells, rfl⟩
    obtain ⟨rfl, rfl⟩ := List.cons.inj heq
    have haccepts := (accepts_iff_admissible target).mpr hspells.admissible
    rw [if_neg (Nat.not_lt.mpr hspells.fits), modify_true, hspells.split, modify_of_accepts haccepts, hmeaning haccepts]

/-! ## What can be written down -/

/-- There is a call for these options: a variable has a name, and four modifiers would not fit. -/
structure Expressible (o : Options) : Prop where
  named : o.resultVariable ≠ some ""
  fits : ¬(o.optional = true ∧ o.noPolicyScope = true ∧ o.resultVariable ≠ none)

def clauses (o : Options) : List Clause :=
  (if o.optional then [.optional] else []) ++ (if o.noPolicyScope then [.noPolicyScope] else []) ++
    o.resultVariable.toList.map .resultVariable

/-- The call that sets just these options. -/
def spelling (o : Options) : List String := o.target :: o.clauses.flatMap Clause.tokens

theorem length_tokens_of_mem {cs : List Clause} {value : String} (hoptional : .optional ∈ cs)
    (hnoPolicyScope : .noPolicyScope ∈ cs) (hvariable : .resultVariable value ∈ cs) :
    4 ≤ (cs.flatMap Clause.tokens).length := by
  have hsub : List.Subperm [.optional, .noPolicyScope, .resultVariable value] cs :=
    (by simp : [Clause.optional, .noPolicyScope, .resultVariable value].Nodup).subperm
      (by simp [hoptional, hnoPolicyScope, hvariable])
  obtain ⟨cs', hperm, hsublist⟩ := hsub
  calc 4 = ([Clause.optional, .noPolicyScope, .resultVariable value].flatMap Clause.tokens).length := rfl
    _ = (cs'.flatMap Clause.tokens).length := (hperm.symm.flatMap_right _).length_eq
    _ ≤ (cs.flatMap Clause.tokens).length := (hsublist.flatMap Clause.tokens).length_le

theorem expressible_of_parse {args : List String} {o : Options} (h : parse args = .ok o) : o.Expressible := by
  obtain ⟨target, modifiers, cs, rfl, hspells, rfl⟩ := parse_eq_ok_iff.mp h
  constructor
  · intro hempty
    obtain ⟨c, -, hc⟩ := List.exists_of_findSome?_eq_some hempty
    exact c.named?_ne_empty hc
  · rintro ⟨hoptional, hnoPolicyScope, hvariable⟩
    obtain ⟨name, hname⟩ := Option.ne_none_iff_exists'.mp hvariable
    obtain ⟨c, hmem, hc⟩ := List.exists_of_findSome?_eq_some hname
    obtain ⟨value, rfl⟩ : ∃ value, c = .resultVariable value := by cases c <;> simp_all [Clause.named?]
    have hlong := length_tokens_of_mem (of_decide_eq_true hoptional) (of_decide_eq_true hnoPolicyScope) hmem
    rw [← hspells.split] at hlong
    have hfits := hspells.fits
    have hdrop := length_dropIgnored_le modifiers
    rw [maxArguments] at hfits
    omega

theorem meaning_clauses {o : Options} (h : o.resultVariable ≠ some "") : meaning o.target o.clauses = o := by
  obtain ⟨target, optional, noPolicyScope, _ | name⟩ := o
  · cases optional <;> cases noPolicyScope <;> simp [meaning, clauses]
  · have hname : variableNamed name = some name := if_neg fun hempty => h (congrArg some hempty)
    cases optional <;> cases noPolicyScope <;> simp [meaning, clauses, List.findSome?_cons, hname]

theorem admissible_clauses (o : Options) : Clause.Admissible o.clauses := by
  obtain ⟨target, optional, noPolicyScope, _ | name⟩ := o <;> cases optional <;> cases noPolicyScope <;>
    constructor <;> simp [clauses, Clause.LeavesUnnamed]

theorem length_spelling_le {o : Options} (h : o.Expressible) : o.spelling.length ≤ maxArguments := by
  have hfits := h.fits
  obtain ⟨target, optional, noPolicyScope, _ | name⟩ := o <;> cases optional <;> cases noPolicyScope <;>
    simp_all [spelling, clauses, Clause.tokens, maxArguments]

theorem parse_spelling {o : Options} (h : o.Expressible) : parse o.spelling = .ok o :=
  parse_eq_ok_iff.mpr ⟨o.target, _, o.clauses, rfl,
    ⟨length_spelling_le h, dropIgnored_tokens _, admissible_clauses o⟩, (meaning_clauses h.named).symm⟩

/-- Reading the arguments of a call accepts the grammar and nothing else, gives what the clauses mean, and reaches
just the options that can be written down, each also through its own spelling. -/
theorem parse_grammar (args : List String) (o : Options) :
    (parse args = .ok o ↔
      ∃ target modifiers cs, args = target :: modifiers ∧ Spells modifiers cs ∧ o = meaning target cs) ∧
    ((∃ args, parse args = .ok o) ↔ o.Expressible) ∧
    (parse o.spelling = .ok o ↔ o.Expressible) :=
  ⟨parse_eq_ok_iff, ⟨fun ⟨_, h⟩ => expressible_of_parse h, fun h => ⟨_, parse_spelling h⟩⟩,
    expressible_of_parse, parse_spelling⟩

-- A value is taken as it stands, also where it spells a keyword.
example : parse ["t", "RESULT_VARIABLE", "OPTIONAL", "OPTIONAL"] =
    .ok { target := "t", optional := true, resultVariable := some "OPTIONAL" } := by decide

example : parse ["t", "old", "RESULT_VARIABLE", ""] = .ok { target := "t" } := by decide

end Options

end ScriptInclude
