import Mathlib.Data.List.Forall2
import ScriptInclude.Json.Printer
import ScriptInclude.Json.Shape

/-!
# Reading printed JSON

JSON is read back as the value that was printed. A string ends at the first quote that is not escaped, which is the
one after all its characters; a number ends where no character of a number follows; and blanks between the parts are
skipped, so the layout does not matter.
-/

namespace ScriptInclude.Json

/-! ## Strings -/

/-- What a character of a string is read as: some control characters are written by their number. -/
def unitOf (c : Char) : CodeUnit :=
  if shortEscape? c = none ∧ c.toNat < 32 then .code c.toNat else .char c

theorem shortMeaning?_of_shortEscape? {c e : Char} (h : shortEscape? c = some e) :
    shortMeaning? e = some c ∧ e ≠ 'u' := by
  have hc : ∀ n, c.toNat = n → c = Char.ofNat n := fun n hn => by rw [← hn, Char.ofNat_toNat]
  unfold shortEscape? at h
  split at h
  case h_6 =>
    split at h
    · next h8 => cases h; rw [hc 8 h8]; decide
    · split at h
      · next h12 => cases h; rw [hc 12 h12]; decide
      · cases h
  all_goals cases h; decide

theorem hexNumber?_hexDigit {n : Nat} (h : n < 32) :
    hexNumber? ['0', '0', hexDigit (n / 16), hexDigit (n % 16)] = some n := by
  have hall : ∀ n < 32, hexNumber? ['0', '0', hexDigit (n / 16), hexDigit (n % 16)] = some n := by decide
  exact hall n h

theorem units?_escapeChar (c : Char) {rest tail : List Char} {us : List CodeUnit} (h : units? rest = some (us, tail)) :
    units? (escapeChar c ++ rest) = some (unitOf c :: us, tail) := by
  unfold escapeChar unitOf
  cases he : shortEscape? c with
  | some e =>
    obtain ⟨hmeaning, hu⟩ := shortMeaning?_of_shortEscape? he
    change units? ('\\' :: e :: rest) = _
    rw [units?, hmeaning, h]
    · rfl
    · intro _ _ _ _ _ hu' _
      exact hu hu'
  | none =>
    dsimp only
    by_cases hc : c.toNat < 32
    · -- below U+0020 two hexadecimal digits say it all, so the two in front are zero
      rw [if_pos hc, if_pos ⟨rfl, hc⟩]
      change units? ('\\' :: 'u' :: '0' :: '0' :: hexDigit _ :: hexDigit _ :: rest) = _
      rw [units?, hexNumber?_hexDigit hc, h]
      rfl
    · have hquote : c ≠ '"' := by rintro rfl; cases he
      have hbackslash : c ≠ '\\' := by rintro rfl; cases he
      rw [if_neg hc, if_neg fun hno => hc hno.2]
      change units? (c :: rest) = _
      rw [units?, if_neg hc, h]
      · rfl
      · exact hquote
      · intro _ _ _ _ _ hb _
        exact hbackslash hb
      · intro _ _ hb _
        exact hbackslash hb

theorem units?_escape (cs rest : List Char) : units? (escape cs ++ '"' :: rest) = some (cs.map unitOf, rest) := by
  induction cs with
  | nil => rfl
  | cons c cs ih =>
    have hsplit : escape (c :: cs) ++ '"' :: rest = escapeChar c ++ (escape cs ++ '"' :: rest) := by
      rw [escape, List.flatMap_cons, List.append_assoc]
      rfl
    rw [hsplit, units?_escapeChar c ih, List.map_cons]

theorem textOf?_unitOf (c : Char) (us : List CodeUnit) : textOf? (unitOf c :: us) = (textOf? us).map (c :: ·) := by
  unfold unitOf
  split
  · next h =>
    have hhigh : isHighHalf c.toNat = false := by simp [isHighHalf]; omega
    have hlow : isLowHalf c.toNat = false := by simp [isLowHalf]; omega
    have hc : Char.ofNat c.toNat = c := Char.ofNat_toNat c
    cases us with
    | nil => simp [textOf?, hhigh, hlow, hc]
    | cons u us => cases u <;> simp [textOf?, hhigh, hlow, hc]
  · rw [textOf?]

theorem textOf?_map_unitOf (cs : List Char) : textOf? (cs.map unitOf) = some cs := by
  induction cs with
  | nil => rfl
  | cons c cs ih => rw [List.map_cons, textOf?_unitOf, ih]; rfl

theorem toList_quote (s : String) : (quote s).toList = '"' :: (escape s.toList ++ ['"']) := by
  simp [quote]

theorem string?_escape (s : String) (rest : List Char) :
    string? (escape s.toList ++ '"' :: rest) = some (some s, rest) := by
  rw [string?, units?_escape]
  simp [textOf?_map_unitOf]

/-! ## Numbers -/

/-- No number goes on here. -/
def Ends (rest : List Char) : Prop := ∀ c ∈ rest.head?, isDigit c = false ∧ c ≠ '.' ∧ c ≠ 'e' ∧ c ≠ 'E'

theorem isDigit_of_mem_toDigits {c : Char} {n : Nat} (h : c ∈ Nat.toDigits 10 n) : isDigit c = true :=
  Nat.isDigit_of_mem_toDigits (by omega) (by omega) h

theorem exists_toDigits (n : Nat) : ∃ c cs, Nat.toDigits 10 n = c :: cs ∧ isDigit c = true := by
  obtain ⟨c, cs, hcs⟩ := List.exists_cons_of_ne_nil (Nat.toDigits_ne_nil (n := n) (b := 10))
  exact ⟨c, cs, hcs, isDigit_of_mem_toDigits (hcs ▸ List.mem_cons_self)⟩

theorem ne_of_isDigit {c d : Char} (hc : isDigit c = true) (hd : isDigit d = false) : c ≠ d := by
  rintro rfl
  rw [hc] at hd
  cases hd

theorem isSpace_of_isDigit {c : Char} (h : isDigit c = true) : isSpace c = false := by
  have hne : ∀ d, isDigit d = false → ¬ c = d := fun d hd => ne_of_isDigit h hd
  simp [isSpace, hne ' ' rfl, hne '\n' rfl, hne '\t' rfl, hne '\r' rfl]

theorem head?_toDigits {n : Nat} (h : n ≠ 0) : (Nat.toDigits 10 n).head? ≠ some '0' := by
  induction n using Nat.strongRecOn with
  | ind n ih =>
    by_cases hn : n < 10
    · have hall : ∀ n < 10, n ≠ 0 → some (Nat.digitChar n) ≠ some '0' := by decide
      rw [Nat.toDigits_of_lt_base hn]
      exact hall n hn h
    · rw [Nat.toDigits_of_base_le (by omega) (by omega), List.head?_append_of_ne_nil _ Nat.toDigits_ne_nil]
      exact ih (n / 10) (by omega) (by omega)

theorem fraction?_of_ends {rest : List Char} (h : Ends rest) : fraction? rest = some rest := by
  cases rest with
  | nil => rfl
  | cons c rest =>
    obtain ⟨-, hdot, -⟩ := h c rfl
    rw [fraction?]
    intro _ heq
    exact hdot (List.cons.inj heq).1

theorem exponent?_of_ends {rest : List Char} (h : Ends rest) : exponent? rest = some rest := by
  cases rest with
  | nil => rfl
  | cons c rest =>
    obtain ⟨-, -, he, hE⟩ := h c rfl
    have hexp : ¬ (c = 'e' ∨ c = 'E') := by simp [he, hE]
    exact if_neg hexp

theorem dropWhile_isDigit_of_ends {rest : List Char} (h : Ends rest) : rest.dropWhile isDigit = rest := by
  cases rest with
  | nil => rfl
  | cons c rest => simp [(h c rfl).1]

theorem wholePart?_toDigits (n : Nat) {rest : List Char} (h : Ends rest) :
    wholePart? (Nat.toDigits 10 n ++ rest) = some rest := by
  by_cases hn : n = 0
  · subst hn
    change wholePart? ('0' :: rest) = _
    cases rest with
    | nil => rfl
    | cons c rest => simp [wholePart?, (h c rfl).1]
  · have hdigits : ∀ c ∈ Nat.toDigits 10 n, isDigit c = true := fun c hc => isDigit_of_mem_toDigits hc
    have hhead := head?_toDigits hn
    cases hcs : Nat.toDigits 10 n with
    | nil => exact absurd hcs Nat.toDigits_ne_nil
    | cons c cs =>
      rw [hcs] at hdigits hhead
      obtain ⟨hc, hrest⟩ := List.forall_mem_cons.mp hdigits
      rw [List.cons_append, wholePart?, digits?, if_pos hc, List.dropWhile_append_of_pos hrest,
        dropWhile_isDigit_of_ends h]
      intro _ _ heq
      exact hhead (congrArg some (List.cons.inj heq).1)

theorem number?_toDigits (n : Nat) {rest : List Char} (h : Ends rest) :
    number? (Nat.toDigits 10 n ++ rest) = some rest := by
  have hunsigned : ∀ cs : List Char, cs.head? ≠ some '-' →
      number? cs = (wholePart? cs).bind fun cs => (fraction? cs).bind exponent? := by
    intro cs hcs
    unfold number?
    split
    · exact absurd rfl hcs
    · rfl
  have hminus : (Nat.toDigits 10 n ++ rest).head? ≠ some '-' := by
    obtain ⟨c, cs, hcs, hc⟩ := exists_toDigits n
    rw [hcs]
    exact fun heq => ne_of_isDigit hc rfl (Option.some.inj heq)
  rw [hunsigned _ hminus, wholePart?_toDigits n h]
  show (fraction? rest).bind exponent? = _
  rw [fraction?_of_ends h]
  exact exponent?_of_ends h

/-! ## Blanks -/

theorem skip_append {ws : List Char} (h : ∀ c ∈ ws, isSpace c = true) (cs : List Char) : skip (ws ++ cs) = skip cs :=
  List.dropWhile_append_of_pos h

theorem skip_cons {c : Char} (h : isSpace c = false) (cs : List Char) : skip (c :: cs) = c :: cs := by
  rw [skip, List.dropWhile_cons_of_neg (by simp [h])]

theorem value?_of_skip {cs cs' : List Char} (h : skip cs = skip cs') (fuel : Nat) :
    value? fuel cs = value? fuel cs' := by
  cases fuel with
  | zero => rfl
  | succ fuel => rw [value?, value?, h]

theorem items?_of_skip {cs cs' : List Char} (h : skip cs = skip cs') (fuel : Nat) :
    items? fuel cs = items? fuel cs' := by
  cases fuel with
  | zero => rfl
  | succ fuel => rw [items?, items?, value?_of_skip h]

theorem members?_of_skip {cs cs' : List Char} (h : skip cs = skip cs') (fuel : Nat) :
    members? fuel cs = members? fuel cs' := by
  cases fuel with
  | zero => rfl
  | succ fuel => rw [members?, members?, h]

/-! ## Shapes of values -/

mutual
/-- The shape that a value has when it is read. -/
def shape : Json → Shape
  | .null => .null
  | .bool b => .bool b
  | .number text => .number text
  | .string text => .string (some text)
  | .array items => .array (shapes items)
  | .object members => .object (memberShapes members)
def shapes : List Json → List Shape
  | [] => []
  | item :: items => shape item :: shapes items
def memberShapes : List (String × Json) → List (Option String × Shape)
  | [] => []
  | (name, value) :: members => (some name, shape value) :: memberShapes members
end

/-- All numbers in it are natural numbers. -/
inductive Plain : Json → Prop where
  | null : Plain .null
  | bool (b : Bool) : Plain (.bool b)
  | number (n : Nat) : Plain (.number (toString n))
  | string (text : String) : Plain (.string text)
  | array {items : List Json} (h : ∀ item ∈ items, Plain item) : Plain (.array items)
  | object {members : List (String × Json)} (h : ∀ m ∈ members, Plain m.2) : Plain (.object members)

theorem shapes_eq_map (xs : List Json) : shapes xs = xs.map shape := by
  induction xs with
  | nil => rfl
  | cons x xs ih => rw [shapes, ih, List.map_cons]

theorem memberShapes_eq_map (ms : List (String × Json)) :
    memberShapes ms = ms.map fun m => (some m.1, shape m.2) := by
  induction ms with
  | nil => rfl
  | cons m ms ih => rw [memberShapes, ih, List.map_cons]

/-! ## One step of the reader -/

/-- A value begins with a character that is no blank and closes no array. -/
def Opens (cs : List Char) : Prop := ∃ c tail, cs = c :: tail ∧ isSpace c = false ∧ c ≠ ']'

section Steps

variable {fuel : Nat} {cs tail rest : List Char} {name : Option String} {x : Shape}

theorem value?_string (s : String) : value? (fuel + 1) ((quote s).toList ++ rest) = some (.string (some s), rest) := by
  have hquote : (quote s).toList ++ rest = '"' :: (escape s.toList ++ '"' :: rest) := by
    rw [toList_quote, List.cons_append, List.append_assoc]
    rfl
  rw [hquote, value?, skip_cons (by decide)]
  simp only [string?_escape, Option.map_some]

theorem keyword?_append (word : String) (rest : List Char) : keyword? word (word.toList ++ rest) = some rest := by
  simp [keyword?]

theorem value?_null : value? (fuel + 1) ("null".toList ++ rest) = some (.null, rest) := by
  have hword : "null".toList ++ rest = 'n' :: ("ull".toList ++ rest) := rfl
  rw [hword, value?, skip_cons (by decide)]
  simp only [keyword?_append, Option.map_some]

theorem value?_bool (b : Bool) :
    value? (fuel + 1) ((if b then "true" else "false").toList ++ rest) = some (.bool b, rest) := by
  cases b with
  | true =>
    have hword : "true".toList ++ rest = 't' :: ("rue".toList ++ rest) := rfl
    rw [if_pos rfl, hword, value?, skip_cons (by decide)]
    simp only [keyword?_append, Option.map_some]
  | false =>
    have hword : "false".toList ++ rest = 'f' :: ("alse".toList ++ rest) := rfl
    rw [if_neg Bool.false_ne_true, hword, value?, skip_cons (by decide)]
    simp only [keyword?_append, Option.map_some]

theorem value?_natural (n : Nat) (h : Ends rest) :
    value? (fuel + 1) (Nat.toDigits 10 n ++ rest) = some (.number (toString n), rest) := by
  have hnumber := number?_toDigits n h
  have htake : (Nat.toDigits 10 n ++ rest).take ((Nat.toDigits 10 n ++ rest).length - rest.length) =
      Nat.toDigits 10 n := by
    rw [List.length_append, Nat.add_sub_cancel, List.take_left]
  have htext : String.ofList (Nat.toDigits 10 n) = toString n := rfl
  obtain ⟨c, cs, hcs, hc⟩ := exists_toDigits n
  rw [hcs, List.cons_append] at hnumber htake
  rw [hcs] at htext
  rw [hcs, value?, List.cons_append, skip_cons (isSpace_of_isDigit hc)]
  -- nothing but a number begins with a digit
  split
  case h_7 => rw [hnumber, Option.map_some, htake, htext]
  all_goals
    next heq => exact absurd (List.cons.inj heq).1 (ne_of_isDigit hc rfl)

theorem value?_emptyArray : value? (fuel + 1) ('[' :: ']' :: rest) = some (.array [], rest) := by
  rw [value?, skip_cons (by decide)]
  simp only [skip_cons (c := ']') (by decide)]

theorem value?_array {xs : List Shape} (h : Opens (skip cs)) (hitems : items? fuel cs = some (xs, rest)) :
    value? (fuel + 1) ('[' :: cs) = some (.array xs, rest) := by
  obtain ⟨c, tail, hskip, hspace, hc⟩ := h
  have hagain : skip (c :: tail) = skip cs := by rw [hskip, skip_cons hspace]
  rw [value?, skip_cons (by decide)]
  simp only [hskip]
  split
  · next heq => exact absurd (List.cons.inj heq).1 hc
  · rw [items?_of_skip hagain, hitems, Option.map_some]

theorem items?_last (hvalue : value? fuel cs = some (x, tail)) (htail : skip tail = ']' :: rest) :
    items? (fuel + 1) cs = some ([x], rest) := by
  rw [items?, hvalue]
  simp only [bind, Option.bind, htail]
  rfl

theorem items?_more {more : List Char} {xs : List Shape} (hvalue : value? fuel cs = some (x, tail))
    (htail : skip tail = ',' :: more) (hmore : items? fuel more = some (xs, rest)) :
    items? (fuel + 1) cs = some (x :: xs, rest) := by
  rw [items?, hvalue]
  simp only [bind, Option.bind, htail, hmore]
  rfl

theorem value?_emptyObject : value? (fuel + 1) ('{' :: '}' :: rest) = some (.object [], rest) := by
  rw [value?, skip_cons (by decide)]
  simp only [skip_cons (c := '}') (by decide)]

theorem value?_object {ms : List (Option String × Shape)} (h : skip cs = '"' :: tail)
    (hmembers : members? fuel cs = some (ms, rest)) : value? (fuel + 1) ('{' :: cs) = some (.object ms, rest) := by
  have hagain : skip ('"' :: tail) = skip cs := by rw [h, skip_cons (by decide)]
  rw [← members?_of_skip hagain] at hmembers
  rw [value?, skip_cons (by decide)]
  simp only [h]
  change (members? fuel ('"' :: tail)).map _ = _
  rw [hmembers, Option.map_some]

theorem members?_last {s : String} {more : List Char} (hname : skip cs = '"' :: (escape s.toList ++ '"' :: ':' :: more))
    (hvalue : value? fuel more = some (x, tail)) (htail : skip tail = '}' :: rest) :
    members? (fuel + 1) cs = some ([(some s, x)], rest) := by
  rw [members?, hname]
  simp only [bind, Option.bind, string?_escape, skip_cons (c := ':') (by decide), hvalue, htail]
  rfl

theorem members?_more {s : String} {value more : List Char} {ms : List (Option String × Shape)}
    (hname : skip cs = '"' :: (escape s.toList ++ '"' :: ':' :: value))
    (hvalue : value? fuel value = some (x, tail)) (htail : skip tail = ',' :: more)
    (hmore : members? fuel more = some (ms, rest)) :
    members? (fuel + 1) cs = some ((some s, x) :: ms, rest) := by
  rw [members?, hname]
  simp only [bind, Option.bind, string?_escape, skip_cons (c := ':') (by decide), hvalue, htail, hmore]
  rfl

end Steps

/-! ## Texts of values -/

/-- The text is read as that value, unless a number goes on after it. -/
def ReadsAs (cs : List Char) (x : Shape) : Prop :=
  ∀ fuel rest, Ends rest → cs.length ≤ fuel → value? (fuel + 1) (cs ++ rest) = some (x, rest)

/-- The text is read as that member of an object: a name, a colon and a value. -/
inductive ReadsAsMember : List Char → Option String × Shape → Prop where
  | intro {ws value : List Char} {x : Shape} (s : String) (hws : ∀ c ∈ ws, isSpace c = true) (h : ReadsAs value x) :
    ReadsAsMember (ws ++ ((quote s).toList ++ ':' :: value)) (some s, x)

/-- Texts with a comma between one and the next. -/
def separated (texts : List (List Char)) : List Char := [','].intercalate texts

section Texts

variable {fuel : Nat} {cs ws tail rest : List Char} {texts : List (List Char)} {x : Shape} {xs : List Shape}
  {ms : List (Option String × Shape)}

theorem separated_singleton (cs : List Char) : separated [cs] = cs := by simp [separated]

theorem separated_cons_cons (cs next : List Char) (texts : List (List Char)) :
    separated (cs :: next :: texts) = cs ++ ',' :: separated (next :: texts) := by
  simp [separated]

theorem ends_nil : Ends [] := by simp [Ends]

theorem ends_cons {c : Char} (h : isDigit c = false ∧ c ≠ '.' ∧ c ≠ 'e' ∧ c ≠ 'E') (cs : List Char) :
    Ends (c :: cs) := by
  intro d hd
  obtain rfl : c = d := by simpa using hd
  exact h

theorem ends_of_blanks (hws : ∀ c ∈ ws, isSpace c = true) (h : Ends rest) : Ends (ws ++ rest) := by
  cases ws with
  | nil => exact h
  | cons c ws =>
    apply ends_cons
    have hc : isSpace c = true := hws c List.mem_cons_self
    simp only [isSpace, Bool.or_eq_true, decide_eq_true_eq] at hc
    rcases hc with ((rfl | rfl) | rfl) | rfl <;> decide

theorem ReadsAs.blanks_append (h : ReadsAs cs x) (hws : ∀ c ∈ ws, isSpace c = true) : ReadsAs (ws ++ cs) x := by
  intro fuel rest hrest hfuel
  rw [List.length_append] at hfuel
  rw [List.append_assoc, value?_of_skip (skip_append hws _)]
  exact h fuel rest hrest (by omega)

/-- Nothing is read where the text ends or an array is closed. -/
theorem opens_of_value? (h : value? fuel cs = some (x, rest)) : Opens (skip cs) := by
  cases fuel with
  | zero => simp [value?] at h
  | succ fuel =>
    cases hcs : skip cs with
    | nil => simp [value?, hcs, number?, wholePart?, digits?] at h
    | cons c tail =>
      have hspace : isSpace c = false := by
        have hhead := List.head?_dropWhile_not isSpace cs
        rw [← skip, hcs] at hhead
        simpa using hhead
      refine ⟨c, tail, rfl, hspace, ?_⟩
      rintro rfl
      simp [value?, hcs, number?, wholePart?, digits?, isDigit] at h

theorem opens_of_items? (h : items? fuel cs = some (xs, rest)) : Opens (skip cs) := by
  cases fuel with
  | zero => simp [items?] at h
  | succ fuel =>
    rw [items?] at h
    obtain ⟨⟨x, tail⟩, hvalue, -⟩ := Option.bind_eq_some_iff.mp h
    exact opens_of_value? hvalue

/-! ## Arrays and objects -/

theorem items?_separated (fuel : Nat) (hread : List.Forall₂ ReadsAs texts xs) (hne : texts ≠ []) (hends : Ends tail)
    (htail : skip tail = ']' :: rest) (hfuel : (separated texts).length + 2 ≤ fuel) :
    items? fuel (separated texts ++ tail) = some (xs, rest) := by
  induction hread generalizing fuel with
  | nil => exact absurd rfl hne
  | @cons cs x texts xs hfirst hlater ih =>
    obtain ⟨fuel, rfl⟩ : ∃ left, fuel = left + 2 := ⟨fuel - 2, by omega⟩
    cases hlater with
    | nil =>
      rw [separated_singleton] at hfuel ⊢
      exact items?_last (hfirst fuel tail hends (by omega)) htail
    | @cons next _ texts _ _ _ =>
      rw [separated_cons_cons] at hfuel ⊢
      rw [List.length_append, List.length_cons] at hfuel
      have hmore := ih (fuel + 1) (List.cons_ne_nil next texts) (by omega)
      have hvalue := hfirst fuel (',' :: (separated (next :: texts) ++ tail)) (ends_cons (by decide) _) (by omega)
      rw [List.append_assoc, List.cons_append]
      exact items?_more hvalue (skip_cons (by decide) _) hmore

theorem readsAs_array (hread : List.Forall₂ ReadsAs texts xs) (hne : texts ≠ []) (hws : ∀ c ∈ ws, isSpace c = true) :
    ReadsAs ('[' :: (separated texts ++ (ws ++ [']']))) (.array xs) := by
  intro fuel rest _ hfuel
  simp only [List.length_cons, List.length_append] at hfuel
  have htail : skip (ws ++ ']' :: rest) = ']' :: rest := by rw [skip_append hws, skip_cons (by decide)]
  have hends : Ends (ws ++ ']' :: rest) := ends_of_blanks hws (ends_cons (by decide) rest)
  have hitems := items?_separated fuel hread hne hends htail (by omega)
  have hvalue := value?_array (opens_of_items? hitems) hitems
  simpa using hvalue

theorem skip_member (hws : ∀ c ∈ ws, isSpace c = true) (s : String) (cs : List Char) :
    skip (ws ++ ((quote s).toList ++ ':' :: cs)) = '"' :: (escape s.toList ++ '"' :: ':' :: cs) := by
  rw [skip_append hws, toList_quote, List.cons_append, skip_cons (by decide), List.append_assoc]
  rfl

theorem members?_separated (fuel : Nat) (hread : List.Forall₂ ReadsAsMember texts ms) (hne : texts ≠ [])
    (hends : Ends tail) (htail : skip tail = '}' :: rest) (hfuel : (separated texts).length + 2 ≤ fuel) :
    members? fuel (separated texts ++ tail) = some (ms, rest) := by
  induction hread generalizing fuel with
  | nil => exact absurd rfl hne
  | @cons cs m texts ms hfirst hlater ih =>
    obtain ⟨fuel, rfl⟩ : ∃ left, fuel = left + 2 := ⟨fuel - 2, by omega⟩
    obtain ⟨s, hws, hvalue⟩ := hfirst
    cases hlater with
    | nil =>
      rw [separated_singleton] at hfuel ⊢
      simp only [List.length_append, List.length_cons] at hfuel
      simp only [List.append_assoc, List.cons_append]
      exact members?_last (skip_member hws s _) (hvalue fuel tail hends (by omega)) htail
    | @cons next _ texts _ _ _ =>
      rw [separated_cons_cons] at hfuel ⊢
      simp only [List.length_append, List.length_cons] at hfuel
      have hmore := ih (fuel + 1) (List.cons_ne_nil next texts) (by omega)
      have hfirst := hvalue fuel (',' :: (separated (next :: texts) ++ tail)) (ends_cons (by decide) _) (by omega)
      simp only [List.append_assoc, List.cons_append]
      exact members?_more (skip_member hws s _) hfirst (skip_cons (by decide) _) hmore

theorem readsAs_object (hread : List.Forall₂ ReadsAsMember texts ms) (hne : texts ≠ [])
    (hws : ∀ c ∈ ws, isSpace c = true) : ReadsAs ('{' :: (separated texts ++ (ws ++ ['}']))) (.object ms) := by
  intro fuel rest _ hfuel
  simp only [List.length_cons, List.length_append] at hfuel
  have htail : skip (ws ++ '}' :: rest) = '}' :: rest := by rw [skip_append hws, skip_cons (by decide)]
  have hends : Ends (ws ++ '}' :: rest) := ends_of_blanks hws (ends_cons (by decide) rest)
  have hmembers := members?_separated fuel hread hne hends htail (by omega)
  obtain ⟨cs, hname⟩ : ∃ cs, skip (separated texts ++ (ws ++ '}' :: rest)) = '"' :: cs := by
    cases hread with
    | nil => exact absurd rfl hne
    | cons hfirst hlater =>
      obtain ⟨s, hblank, -⟩ := hfirst
      cases hlater with
      | nil =>
        simp only [separated_singleton, List.append_assoc, List.cons_append]
        exact ⟨_, skip_member hblank s _⟩
      | cons _ _ =>
        simp only [separated_cons_cons, List.append_assoc, List.cons_append]
        exact ⟨_, skip_member hblank s _⟩
  have hvalue := value?_object hname hmembers
  simpa using hvalue

end Texts

theorem readsAs_emptyArray : ReadsAs "[]".toList (.array []) := fun _ _ _ _ => value?_emptyArray

theorem readsAs_emptyObject : ReadsAs (openBrace ++ closeBrace).toList (.object []) :=
  fun _ _ _ _ => value?_emptyObject

/-- A text is read as its only value. -/
theorem read?_of_readsAs {text : String} {x : Shape} (h : ReadsAs text.toList x) : Shape.read? text = some x := by
  have hvalue := h (2 * text.toList.length) [] ends_nil (by omega)
  rw [List.append_nil] at hvalue
  simp only [Shape.read?, hvalue]
  rfl

/-! ## Scalars -/

theorem readsAs_null : ReadsAs "null".toList .null := fun _ _ _ _ => value?_null

theorem readsAs_bool (b : Bool) : ReadsAs (if b then "true" else "false").toList (.bool b) := fun _ _ _ _ => value?_bool b

theorem readsAs_natural (n : Nat) : ReadsAs (toString n).toList (.number (toString n)) := by
  intro fuel rest hrest _
  have htext : (toString n).toList = Nat.toDigits 10 n := Nat.toList_repr
  rw [htext]
  exact value?_natural n hrest

theorem readsAs_string (s : String) : ReadsAs (quote s).toList (.string (some s)) := fun _ _ _ _ => value?_string s

/-! ## Indented values -/

/-- The beginning of a line that is indented. -/
def indent (depth : Nat) : List Char := '\n' :: (margin depth).toList

theorem isSpace_of_mem_indent (depth : Nat) : ∀ c ∈ indent depth, isSpace c = true := by
  intro c hc
  rcases List.mem_cons.mp hc with rfl | hc
  · rfl
  · rw [margin, String.toList_ofList] at hc
    rw [List.eq_of_mem_replicate hc]
    rfl

theorem cons_intercalate_break (ls : List (List Char)) (hne : ls ≠ []) :
    '\n' :: [',', '\n'].intercalate ls = separated (ls.map ('\n' :: ·)) := by
  induction ls with
  | nil => exact absurd rfl hne
  | cons l ls ih =>
    cases ls with
    | nil => simp [separated]
    | cons next ls =>
      have hnext := ih (List.cons_ne_nil next ls)
      simp only [List.map_cons] at hnext ⊢
      rw [separated_cons_cons, ← hnext, List.intercalate_cons_cons]
      simp

theorem toList_bracketed {left right : String} {depth : Nat} {texts : List String} (h : texts ≠ []) :
    (bracketed left right depth texts).toList =
      left.toList ++ (separated (texts.map fun text => indent (depth + 1) ++ text.toList) ++
        (indent depth ++ right.toList)) := by
  have hcomma : ",\n".toList = [',', '\n'] := rfl
  have hbreak : "\n".toList = ['\n'] := rfl
  have hlines : (texts.map fun text => indent (depth + 1) ++ text.toList) =
      ((texts.map (margin (depth + 1) ++ ·)).map String.toList).map ('\n' :: ·) := by
    simp [indent, String.toList_append]
  rw [bracketed, if_neg (by simp [h]), hlines, ← cons_intercalate_break _ (by simp [h])]
  simp [String.toList_append, String.toList_intercalate, hcomma, hbreak, indent]

theorem indentedItems_eq (depth : Nat) (items : List Json) :
    indentedItems depth items = items.map (indented depth) := by
  induction items with
  | nil => rfl
  | cons item items ih => rw [indentedItems, ih, List.map_cons]

def memberText (depth : Nat) (m : String × Json) : String := quote m.1 ++ ": " ++ indented depth m.2

theorem indentedMembers_eq (depth : Nat) (members : List (String × Json)) :
    indentedMembers depth members = members.map (memberText depth) := by
  induction members with
  | nil => rfl
  | cons m members ih => rw [indentedMembers, ih, List.map_cons, memberText]

theorem readsAs_indented {j : Json} (h : j.Plain) (depth : Nat) : ReadsAs (indented depth j).toList j.shape := by
  induction h generalizing depth with
  | null => exact readsAs_null
  | bool b => exact readsAs_bool b
  | number n => exact readsAs_natural n
  | string text => exact readsAs_string text
  | @array items _ ih =>
    rw [indented, indentedItems_eq, shape, shapes_eq_map]
    cases items with
    | nil => exact readsAs_emptyArray
    | cons item items =>
      rw [toList_bracketed (by simp), List.map_map]
      refine readsAs_array ?_ (by simp) (isSpace_of_mem_indent depth)
      rw [List.forall₂_map_left_iff, List.forall₂_map_right_iff, List.forall₂_same]
      intro item hitem
      exact (ih item hitem (depth + 1)).blanks_append (isSpace_of_mem_indent (depth + 1))
  | @object members _ ih =>
    rw [indented, indentedMembers_eq, shape, memberShapes_eq_map]
    cases members with
    | nil => exact readsAs_emptyObject
    | cons m members =>
      rw [toList_bracketed (by simp), List.map_map]
      refine readsAs_object ?_ (by simp) (isSpace_of_mem_indent depth)
      rw [List.forall₂_map_left_iff, List.forall₂_map_right_iff, List.forall₂_same]
      intro m hm
      have hcolon : ": ".toList = [':', ' '] := rfl
      have hspace : ∀ c ∈ [' '], isSpace c = true := by simp [isSpace]
      have hvalue := (ih m hm (depth + 1)).blanks_append hspace
      have hmember := ReadsAsMember.intro m.1 (isSpace_of_mem_indent (depth + 1)) hvalue
      simpa [memberText, String.toList_append, hcolon] using hmember

/-- **Printed JSON is read back.** -/
theorem read?_pretty {j : Json} (h : j.Plain) : Shape.read? j.pretty = some j.shape :=
  read?_of_readsAs (readsAs_indented h 0)

end ScriptInclude.Json
