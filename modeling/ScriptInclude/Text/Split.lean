/-!
# Cutting text

A text cut at a separator has one piece more than it has separators, and joining the pieces gives the
text back. Lines are the pieces at line feeds, less the empty piece after a last line feed.
-/

namespace ScriptInclude.Text

/-! ## Pieces -/

def pieces (sep : Char) : List Char → List (List Char)
  | [] => [[]]
  | c :: cs =>
    if c = sep then [] :: pieces sep cs
    else match pieces sep cs with
      | [] => [[c]]
      | p :: ps => (c :: p) :: ps

def join (sep : List Char) : List (List Char) → List Char
  | [] => []
  | [p] => p
  | p :: q :: ps => p ++ sep ++ join sep (q :: ps)

theorem pieces_ne_nil (sep : Char) : ∀ cs, pieces sep cs ≠ []
  | [] => by simp [pieces]
  | c :: cs => by unfold pieces; split <;> (try split) <;> simp

theorem join_pieces (sep : Char) : ∀ cs, join [sep] (pieces sep cs) = cs
  | [] => rfl
  | c :: cs => by
    have ih := join_pieces sep cs
    unfold pieces
    split
    · next h =>
      cases hp : pieces sep cs with
      | nil => exact absurd hp (pieces_ne_nil sep cs)
      | cons p ps => rw [hp] at ih; simp [join, ih, h]
    · cases hp : pieces sep cs with
      | nil => exact absurd hp (pieces_ne_nil sep cs)
      | cons p ps =>
        rw [hp] at ih
        cases ps with
        | nil => simpa [join] using ih
        | cons q ps => simpa [join] using ih

/-- The two sides of the first `sep`, if there is one. -/
def cutFirst? (sep : Char) : List Char → Option (List Char × List Char)
  | [] => none
  | c :: cs => if c = sep then some ([], cs) else (cutFirst? sep cs).map fun (l, r) => (c :: l, r)

theorem cutFirst?_eq_none_iff {sep : Char} {cs : List Char} : cutFirst? sep cs = none ↔ sep ∉ cs := by
  induction cs with
  | nil => simp [cutFirst?]
  | cons c cs ih =>
    by_cases h : c = sep
    · simp [cutFirst?, h]
    · simp [cutFirst?, h, ih, Ne.symm h]

theorem cutFirst?_eq_some_iff {sep : Char} {cs left right : List Char} :
    cutFirst? sep cs = some (left, right) ↔ cs = left ++ sep :: right ∧ sep ∉ left := by
  induction cs generalizing left with
  | nil => simp [cutFirst?]
  | cons c cs ih =>
    cases left with
    | nil => by_cases h : c = sep <;> simp [cutFirst?, h]
    | cons d left =>
      have hcut : cutFirst? sep (c :: cs) = some (d :: left, right) ↔
          c ≠ sep ∧ c = d ∧ cutFirst? sep cs = some (left, right) := by
        by_cases h : c = sep
        · simp [cutFirst?, h]
        · rw [cutFirst?, if_neg h, Option.map_eq_some_iff]
          grind
      rw [hcut, ih]
      grind

/-! ## Lines -/

/-- A carriage return before the line feed belongs to the line end. -/
def stripReturn (line : List Char) : List Char :=
  if line.getLast? = some '\r' then line.dropLast else line

def linesOfPieces : List (List Char) → List (List Char)
  | [] => []
  | [last] => if last = [] then [] else [last]
  | p :: q :: ps => stripReturn p :: linesOfPieces (q :: ps)

def lines (cs : List Char) : List (List Char) := linesOfPieces (pieces '\n' cs)

/-! ## Columns -/

/-- Fills up with spaces to `width` characters; a longer text stays whole. -/
def padRight (width : Nat) (s : String) : String :=
  s ++ String.ofList (List.replicate (width - s.length) ' ')

end ScriptInclude.Text
