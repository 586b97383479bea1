import ScriptInclude.Host

/-!
# Where a target points

A target that is no full path is first taken as the name of a module. A module wins over a file of the
same name below the source directory.
-/

namespace ScriptInclude

def scriptSuffix : String := ".cmake"

structure Target where
  /-- The target as written. -/
  specifier : String
  module? : Option Path
  path : Path
  deriving DecidableEq

namespace Target

variable {σ : Type} [Host σ]

def moduleFile? (host : σ) (specifier : String) : Option Path :=
  if Host.isFullPath host ⟨specifier⟩ then none else Host.findModule? host (specifier ++ scriptSuffix)

def resolve (host : σ) (specifier : String) (sourceDir : Path) : Target :=
  let found := moduleFile? host specifier
  ⟨specifier, found, Host.collapsePath host (found.getD ⟨specifier⟩) sourceDir⟩

end Target

end ScriptInclude
