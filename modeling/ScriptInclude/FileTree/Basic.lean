/-!
# File trees

A file system as a table of what stands where. A location is the list of names from the root down, with
no links and no dots in it; the root itself is always a directory. A directory is an entry of its own,
so an empty one can be told from an absent one. No location stands in the table twice.

Permissions, special files such as devices and pipes, and disks that are full are left out: every file can be
read, and what is free can be made.
-/

namespace ScriptInclude

abbrev Location := List String

instance (priority := high) contentDecidableEq : DecidableEq ByteArray := ByteArray.instDecidableEq

inductive Entry where
  | directory
  | file (content : ByteArray)
  | link (target : String)
  deriving DecidableEq, Inhabited

structure FileTree where
  entries : List (Location × Entry) := []
  distinct : (entries.map Prod.fst).Nodup := by decide
  deriving DecidableEq

namespace FileTree

def empty : FileTree := {}

instance : Inhabited FileTree := ⟨empty⟩

def lookup? (t : FileTree) (loc : Location) : Option Entry :=
  if loc = [] then some .directory else t.entries.lookup loc

/-- Replaces what stands at a location, or adds it last. -/
def putEntry (loc : Location) (n : Entry) : List (Location × Entry) → List (Location × Entry)
  | [] => [(loc, n)]
  | e :: es => if e.1 = loc then (loc, n) :: es else e :: putEntry loc n es

theorem mem_of_mem_putEntry {loc : Location} {n : Entry} {e : Location × Entry} :
    ∀ {es : List (Location × Entry)}, e ∈ putEntry loc n es → e = (loc, n) ∨ e ∈ es
  | [], h => by simpa [putEntry] using h
  | old :: es, h => by
    unfold putEntry at h
    split at h
    · rcases List.mem_cons.mp h with h | h
      · exact Or.inl h
      · exact Or.inr (List.mem_cons_of_mem _ h)
    · rcases List.mem_cons.mp h with h | h
      · exact Or.inr (by simp [h])
      · rcases mem_of_mem_putEntry h with h | h
        · exact Or.inl h
        · exact Or.inr (List.mem_cons_of_mem _ h)

theorem distinct_putEntry (loc : Location) (n : Entry) :
    ∀ {es : List (Location × Entry)}, (es.map Prod.fst).Nodup → ((putEntry loc n es).map Prod.fst).Nodup
  | [], _ => by simp [putEntry]
  | e :: es, h => by
    obtain ⟨hnot, hes⟩ := List.nodup_cons.mp h
    unfold putEntry
    split
    · next he => exact he ▸ h
    · next he =>
      refine List.nodup_cons.mpr ⟨fun hm => ?_, distinct_putEntry loc n hes⟩
      obtain ⟨x, hx, hxe⟩ := List.mem_map.mp hm
      rcases mem_of_mem_putEntry hx with rfl | hx
      · exact he hxe.symm
      · exact hnot (List.mem_map.mpr ⟨x, hx, hxe⟩)

def put (t : FileTree) (loc : Location) (n : Entry) : FileTree :=
  ⟨putEntry loc n t.entries, distinct_putEntry loc n t.distinct⟩

/-- Takes away a location and all below it. -/
def prune (t : FileTree) (loc : Location) : FileTree :=
  ⟨t.entries.filter fun e => !loc.isPrefixOf e.1, (List.filter_sublist.map Prod.fst).nodup t.distinct⟩

/-- The names of the regular files that stand directly in a directory. -/
def fileNames (t : FileTree) (loc : Location) : List String :=
  t.entries.filterMap fun (entry, n) =>
    match n with
    | .file _ => if entry.dropLast = loc then entry.getLast? else none
    | _ => none

/-! ## What stands where after a change -/

theorem lookup_putEntry (loc : Location) (n : Entry) (other : Location) :
    ∀ es : List (Location × Entry),
      (putEntry loc n es).lookup other = if other = loc then some n else es.lookup other
  | [] => by
    by_cases h : other = loc
    · simp [putEntry, h]
    · simp [putEntry, List.lookup_cons, h, beq_false_of_ne h]
  | (place, old) :: es => by
    have ih := lookup_putEntry loc n other es
    unfold putEntry
    by_cases he : place = loc
    · by_cases h : other = loc
      · simp [he, h]
      · simp [List.lookup_cons, he, h, beq_false_of_ne h]
    · by_cases hl : other = place
      · subst hl; simp [he]
      · simp [List.lookup_cons, he, beq_false_of_ne hl, ih]

theorem lookup?_put (t : FileTree) (loc : Location) (n : Entry) (other : Location) (h : loc ≠ []) :
    (t.put loc n).lookup? other = if other = loc then some n else t.lookup? other := by
  unfold lookup? put
  by_cases hl : other = []
  · simp [hl, Ne.symm h]
  · simp [hl, lookup_putEntry]

theorem putEntry_putEntry (loc : Location) (m n : Entry) :
    ∀ es : List (Location × Entry), putEntry loc n (putEntry loc m es) = putEntry loc n es
  | [] => by simp [putEntry]
  | e :: es => by
    by_cases h : e.1 = loc
    · simp [putEntry, h]
    · simp [putEntry, h, putEntry_putEntry loc m n es]

theorem put_put (t : FileTree) (loc : Location) (m n : Entry) : (t.put loc m).put loc n = t.put loc n := by
  simp [put, putEntry_putEntry]

end FileTree

end ScriptInclude
