import Mathlib.Data.List.Basic
import ScriptInclude.FileTree.Walk

/-!
# Walking in two stages

A walk first enters directory after directory, and uses up links as it follows them; then it asks for the
last part. So a walk of a long text is a walk of its end from the directory that its beginning leads to,
with the links that are left.
-/

namespace ScriptInclude.FileTree

variable {t : FileTree} {follow : Bool} {links : Nat} {here : Location} {part : String} {rest : List String}

/-! ## One part of a walk -/

@[simp]
theorem walk_nil : walk t follow links here [] = .ok (.present here .directory) := by
  cases links <;> rfl

theorem walk_silent (h : isSilent part = true) :
    walk t follow links here (part :: rest) = walk t follow links here rest := by
  cases links <;> simp [walk, walkBy, h]

theorem walk_up : walk t follow links here (".." :: rest) = walk t follow links here.dropLast rest := by
  have h : isSilent ".." = false := by decide
  cases links <;> simp [walk, walkBy, h]

/-- A part that is looked up in the directory; it may still be too long for a name. -/
structure IsEntryName (part : String) : Prop where
  not_silent : ¬ isSilent part = true
  ne_up : part ≠ ".."

theorem walk_tooLong (h : IsEntryName part) (hlong : maxName < part.utf8ByteSize) :
    walk t follow links here (part :: rest) = .error .nameTooLong := by
  cases links <;> simp [walk, walkBy, h.not_silent, h.ne_up, hlong]

theorem walk_none (h : IsEntryName part) (hshort : ¬ maxName < part.utf8ByteSize)
    (hl : t.lookup? (here ++ [part]) = none) :
    walk t follow links here (part :: rest) =
      if rest = [] then .ok (.vacant here part) else .error .notFound := by
  cases links <;> simp [walk, walkBy, h.not_silent, h.ne_up, hshort, hl]

theorem walk_directory (h : IsEntryName part) (hshort : ¬ maxName < part.utf8ByteSize)
    (hl : t.lookup? (here ++ [part]) = some .directory) :
    walk t follow links here (part :: rest) = walk t follow links (here ++ [part]) rest := by
  cases links <;> simp [walk, walkBy, h.not_silent, h.ne_up, hshort, hl]

theorem walk_file (h : IsEntryName part) (hshort : ¬ maxName < part.utf8ByteSize) {b : ByteArray}
    (hl : t.lookup? (here ++ [part]) = some (.file b)) :
    walk t follow links here (part :: rest) =
      if rest = [] then .ok (.present (here ++ [part]) (.file b)) else .error .notDirectory := by
  cases links <;> simp [walk, walkBy, h.not_silent, h.ne_up, hshort, hl]

theorem walk_link_zero (h : IsEntryName part) (hshort : ¬ maxName < part.utf8ByteSize) {target : String}
    (hl : t.lookup? (here ++ [part]) = some (.link target)) :
    walk t follow 0 here (part :: rest) =
      if rest = [] ∧ follow = false then .ok (.present (here ++ [part]) (.link target))
      else .error .tooManyLinks := by
  simp [walk, walkBy, h.not_silent, h.ne_up, hshort, hl]

theorem walk_link_succ (h : IsEntryName part) (hshort : ¬ maxName < part.utf8ByteSize) {target : String}
    (hl : t.lookup? (here ++ [part]) = some (.link target)) :
    walk t follow (links + 1) here (part :: rest) =
      if rest = [] ∧ follow = false then .ok (.present (here ++ [part]) (.link target))
      else walk t follow links (start ⟨target⟩ here) (steps ⟨target⟩ ++ rest) := by
  simp [walk, walkBy, h.not_silent, h.ne_up, hshort, hl]

/-! ## Entering directories -/

/-- The directory that the parts lead to, with the links that may still be followed from there. -/
def enter (t : FileTree) (links : Nat) (here : Location) : List String → Except FileError (Nat × Location)
  | [] => .ok (links, here)
  | part :: rest =>
    if isSilent part then enter t links here rest
    else if part = ".." then enter t links here.dropLast rest
    else if maxName < part.utf8ByteSize then .error .nameTooLong
    else match t.lookup? (here ++ [part]) with
      | none => .error .notFound
      | some .directory => enter t links (here ++ [part]) rest
      | some (.file _) => .error .notDirectory
      | some (.link target) =>
        match links with
        | 0 => .error .tooManyLinks
        | links + 1 => enter t links (start ⟨target⟩ here) (steps ⟨target⟩ ++ rest)
  termination_by parts => (links, parts.length)

theorem walk_append (t : FileTree) (follow : Bool) (links : Nat) (here : Location) (xs : List String)
    {ys : List String} (hys : ys ≠ []) :
    walk t follow links here (xs ++ ys) =
      (enter t links here xs).bind fun r => walk t follow r.1 r.2 ys := by
  -- what follows is never empty, so each part has to be a directory or a link
  have hne : ∀ rest : List String, rest ++ ys ≠ [] := fun rest h => hys (List.append_eq_nil_iff.mp h).2
  fun_induction enter t links here xs with
  | case1 => rfl
  | case2 links here part rest h ih => rw [List.cons_append, walk_silent h, ih]
  | case3 links here rest _ ih => rw [List.cons_append, walk_up, ih]
  | case4 links here part rest h hup hlong => rw [List.cons_append, walk_tooLong ⟨h, hup⟩ hlong]; rfl
  | case5 links here part rest h hup hshort hl =>
    rw [List.cons_append, walk_none ⟨h, hup⟩ hshort hl, if_neg (hne rest)]; rfl
  | case6 links here part rest h hup hshort hl ih => rw [List.cons_append, walk_directory ⟨h, hup⟩ hshort hl, ih]
  | case7 links here part rest h hup hshort b hl =>
    rw [List.cons_append, walk_file ⟨h, hup⟩ hshort hl, if_neg (hne rest)]; rfl
  | case8 here part rest h hup hshort target hl =>
    rw [List.cons_append, walk_link_zero ⟨h, hup⟩ hshort hl, if_neg fun hl => hne rest hl.1]; rfl
  | case9 here part rest h hup hshort target hl links ih =>
    rw [List.cons_append, walk_link_succ ⟨h, hup⟩ hshort hl, if_neg fun hl => hne rest hl.1, ← List.append_assoc, ih]

theorem enter_append (t : FileTree) (links : Nat) (here : Location) (xs ys : List String) :
    enter t links here (xs ++ ys) = (enter t links here xs).bind fun r => enter t r.1 r.2 ys := by
  fun_induction enter t links here xs with
  | case1 => rfl
  | case2 links here part rest h ih => rw [List.cons_append, enter, if_pos h, ih]
  | case3 links here rest h ih => rw [List.cons_append, enter, if_neg h, if_pos rfl, ih]
  | case4 links here part rest h hup hlong =>
    rw [List.cons_append, enter, if_neg h, if_neg hup, if_pos hlong]; rfl
  | case5 links here part rest h hup hshort hl =>
    rw [List.cons_append, enter, if_neg h, if_neg hup, if_neg hshort, hl]; rfl
  | case6 links here part rest h hup hshort hl ih =>
    rw [List.cons_append, enter, if_neg h, if_neg hup, if_neg hshort, hl]; exact ih
  | case7 links here part rest h hup hshort b hl =>
    rw [List.cons_append, enter, if_neg h, if_neg hup, if_neg hshort, hl]; rfl
  | case8 here part rest h hup hshort target hl =>
    rw [List.cons_append, enter, if_neg h, if_neg hup, if_neg hshort, hl]; rfl
  | case9 here part rest h hup hshort target hl links ih =>
    rw [List.cons_append, enter, if_neg h, if_neg hup, if_neg hshort, hl, ← ih, List.append_assoc]

theorem bind_eq_ok {ε α β : Type} {x : Except ε α} {f : α → Except ε β} {b : β} :
    x.bind f = .ok b ↔ ∃ a, x = .ok a ∧ f a = .ok b := by
  cases x <;> simp [Except.bind]

theorem walk_append_eq_ok {xs ys : List String} {spot : Spot} (hys : ys ≠ []) :
    walk t follow links here (xs ++ ys) = .ok spot ↔
      ∃ left there, enter t links here xs = .ok (left, there) ∧ walk t follow left there ys = .ok spot := by
  rw [walk_append t follow links here xs hys, bind_eq_ok, Prod.exists]

theorem enter_append_eq_ok {xs ys : List String} {r : Nat × Location} :
    enter t links here (xs ++ ys) = .ok r ↔
      ∃ left there, enter t links here xs = .ok (left, there) ∧ enter t left there ys = .ok r := by
  rw [enter_append, bind_eq_ok, Prod.exists]

@[simp]
theorem enter_nil : enter t links here [] = .ok (links, here) := by rw [enter]

theorem enter_silent (h : isSilent part = true) : enter t links here (part :: rest) = enter t links here rest := by
  rw [enter, if_pos h]

theorem enter_up : enter t links here (".." :: rest) = enter t links here.dropLast rest := by
  have h : ¬ isSilent ".." = true := by decide
  rw [enter, if_neg h, if_pos rfl]

/-- A walk that follows links ends in a directory if the parts can be entered, and only then. -/
theorem walk_eq_directory_iff {xs : List String} {loc : Location} :
    walk t true links here xs = .ok (.present loc .directory) ↔ ∃ left, enter t links here xs = .ok (left, loc) := by
  fun_induction enter t links here xs with
  | case1 => simp
  | case2 links here part rest h ih => rw [walk_silent h, ih]
  | case3 links here rest h ih => rw [walk_up, ih]
  | case4 links here part rest h hup hlong => simp [walk_tooLong ⟨h, hup⟩ hlong]
  | case5 links here part rest h hup hshort hl =>
    rw [walk_none ⟨h, hup⟩ hshort hl]
    by_cases hrest : rest = [] <;> simp [hrest]
  | case6 links here part rest h hup hshort hl ih => rw [walk_directory ⟨h, hup⟩ hshort hl, ih]
  | case7 links here part rest h hup hshort b hl =>
    rw [walk_file ⟨h, hup⟩ hshort hl]
    by_cases hrest : rest = [] <;> simp [hrest]
  | case8 here part rest h hup hshort target hl => simp [walk_link_zero ⟨h, hup⟩ hshort hl]
  | case9 here part rest h hup hshort target hl links ih => simp [walk_link_succ ⟨h, hup⟩ hshort hl, ih]

/-! ## One name in a directory that is entered -/

/-- A name that is entered stands for a directory, or for a link. -/
theorem enter_name_eq_ok {left : Nat} {loc : Location} (h : IsEntryName part)
    (he : enter t links here [part] = .ok (left, loc)) :
    (loc = here ++ [part] ∧ left = links) ∨
      ∃ target, walk t false links here [part] = .ok (.present (here ++ [part]) (.link target)) := by
  rw [enter, if_neg h.not_silent, if_neg h.ne_up] at he
  split at he
  · cases he
  · next hshort =>
    split at he
    · cases he
    · rw [enter_nil] at he
      cases he
      exact Or.inl ⟨rfl, rfl⟩
    · cases he
    · next target hl =>
      refine Or.inr ⟨target, ?_⟩
      cases links with
      | zero => simp [walk_link_zero h hshort hl]
      | succ links => simp [walk_link_succ h hshort hl]

theorem isEntryName_of_walk_eq_file {loc : Location} {b : ByteArray}
    (hw : walk t follow links here [part] = .ok (.present loc (.file b))) : IsEntryName part := by
  constructor
  · intro h
    simp [walk_silent h] at hw
  · rintro rfl
    simp [walk_up] at hw

/-- Without following a link, a name is a file if a file stands there. -/
theorem walk_name_eq_file (h : IsEntryName part) {place : Location} {b : ByteArray} :
    walk t false links here [part] = .ok (.present place (.file b)) ↔
      ¬ maxName < part.utf8ByteSize ∧ place = here ++ [part] ∧ t.lookup? (here ++ [part]) = some (.file b) := by
  by_cases hlong : maxName < part.utf8ByteSize
  · simp [walk_tooLong h hlong, hlong]
  · cases hl : t.lookup? (here ++ [part]) with
    | none => simp [walk_none h hlong hl]
    | some e =>
      cases e with
      | directory => simp [walk_directory h hlong hl]
      | file => simp [walk_file h hlong hl, hlong, eq_comm]
      | link => cases links <;> simp [walk_link_zero h hlong, walk_link_succ h hlong, hl]

end ScriptInclude.FileTree
