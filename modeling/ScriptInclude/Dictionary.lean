/-!
# Dictionaries

A finite map from texts to values. The entries are kept in increasing order of their keys, so two
dictionaries with the same entries are equal, and the order of listing is the order of the keys.
Keys compare by code point, which is also the order of their UTF-8 octets.
-/

namespace ScriptInclude

def Increasing {α : Type} (entries : List (String × α)) : Prop := entries.Pairwise fun a b => a.1 < b.1

structure Dictionary (α : Type) where
  entries : List (String × α)
  increasing : Increasing entries

namespace Dictionary

variable {α : Type}

instance [DecidableEq α] : DecidableEq (Dictionary α) := fun d e =>
  match d, e with
  | ⟨xs, _⟩, ⟨ys, _⟩ => if h : xs = ys then isTrue (by subst h; rfl) else isFalse (by simp [h])

@[ext]
theorem ext {d e : Dictionary α} (h : d.entries = e.entries) : d = e := by
  cases d; cases e; simp_all

def empty : Dictionary α := ⟨[], List.Pairwise.nil⟩

instance : Inhabited (Dictionary α) := ⟨empty⟩

def get? (d : Dictionary α) (k : String) : Option α := d.entries.lookup k

def isEmpty (d : Dictionary α) : Bool := d.entries.isEmpty

/-! ## Insertion -/

/-- Puts the entry at its place; an entry with the same key is replaced. -/
def place (k : String) (v : α) : List (String × α) → List (String × α)
  | [] => [(k, v)]
  | e :: es => if k < e.1 then (k, v) :: e :: es else if e.1 < k then e :: place k v es else (k, v) :: es

theorem mem_place {k : String} {v : α} {x : String × α} :
    ∀ {es : List (String × α)}, x ∈ place k v es → x = (k, v) ∨ x ∈ es
  | [], h => by simpa [place] using h
  | e :: es, h => by
    unfold place at h
    split at h
    · simpa using h
    · split at h
      · rcases List.mem_cons.mp h with h | h
        · exact Or.inr (by simp [h])
        · rcases mem_place h with h | h
          · exact Or.inl h
          · exact Or.inr (by simp [h])
      · rcases List.mem_cons.mp h with h | h
        · exact Or.inl h
        · exact Or.inr (by simp [h])

theorem eq_of_not_lt {a b : String} (h₁ : ¬ a < b) (h₂ : ¬ b < a) : a = b :=
  String.le_antisymm (String.not_lt.mp h₂) (String.not_lt.mp h₁)

theorem increasing_place (k : String) (v : α) :
    ∀ {es : List (String × α)}, Increasing es → Increasing (place k v es)
  | [], _ => by simp [place, Increasing]
  | e :: es, h => by
    obtain ⟨h₁, h₂⟩ := List.pairwise_cons.mp h
    unfold place
    split
    · next hk =>
      refine List.pairwise_cons.mpr ⟨fun x hx => ?_, h⟩
      rcases List.mem_cons.mp hx with hx | hx
      · simpa [hx] using hk
      · exact String.lt_trans hk (h₁ x hx)
    · split
      · next hk =>
        refine List.pairwise_cons.mpr ⟨fun x hx => ?_, increasing_place k v h₂⟩
        rcases mem_place hx with hx | hx
        · simpa [hx] using hk
        · exact h₁ x hx
      · next hk hk' =>
        have hke : k = e.1 := eq_of_not_lt hk hk'
        exact List.pairwise_cons.mpr ⟨fun x hx => hke ▸ h₁ x hx, h₂⟩

def insert (d : Dictionary α) (k : String) (v : α) : Dictionary α :=
  ⟨place k v d.entries, increasing_place k v d.increasing⟩

/-- Of entries with one key the last wins. -/
def ofList (es : List (String × α)) : Dictionary α := es.foldl (fun d e => d.insert e.1 e.2) empty

/-- The entries of `d` over those of `base`. -/
def layeredOver (d base : Dictionary α) : Dictionary α := d.entries.foldl (fun m e => m.insert e.1 e.2) base

def insertNew (d : Dictionary α) (k : String) (v : α) : Dictionary α :=
  if (d.get? k).isSome then d else d.insert k v

end Dictionary

end ScriptInclude
