import ScriptInclude.Config.Layers
import ScriptInclude.Proofs.Layering

/-!
# Chains of configuration files

A file that extends another is laid over it, and that one over the next, down to a file that extends nothing
or a preset. What follows a file is settled by the file. So loading has a result exactly if the line of files
ends, and it finds nothing but chains that end.
-/

namespace ScriptInclude

namespace Config

/-! ## Layers -/

/-- A file of a chain, with what is written in it. -/
structure Layer where
  file : Path
  written : Config

def Written (w : World) (file : Path) (c : Config) : Prop := ∃ text, w.readText file = .ok text ∧ ofYaml? text = some c

/-- What a file says by itself, its paths taken from its own directory. -/
def Layer.rebased (w : World) (l : Layer) : Config := l.written.rebase (directoryOf w l.file)

/-- Files that extend one another, and the configuration that the last of them is laid over. -/
inductive Chain (w : World) : Path → List Layer → Config → Prop where
  | alone {file : Path} {c : Config} (h : Written w file c) (hbase : c.base = none) : Chain w file [⟨file, c⟩] {}
  | preset {file : Path} {c ground : Config} {name : String} (h : Written w file c) (hbase : c.base = some name)
      (hpreset : preset? name = some ground) : Chain w file [⟨file, c⟩] ground
  | extending {file : Path} {c ground : Config} {name : String} {layers : List Layer} (h : Written w file c)
      (hbase : c.base = some name) (hpreset : preset? name = none)
      (hrest : Chain w (basePath name file) layers ground) : Chain w file (⟨file, c⟩ :: layers) ground

def stack (w : World) (layers : List Layer) (ground : Config) : Config :=
  layers.foldr (fun l c => (l.rebased w).layeredOver c) ground

variable {w : World} {file : Path} {layers : List Layer} {c ground : Config}

/-! ## Reading one file -/

theorem Written.unique {c' : Config} (h : Written w file c) (h' : Written w file c') : c = c' := by
  obtain ⟨text, htext, hc⟩ := h
  obtain ⟨text', htext', hc'⟩ := h'
  obtain rfl : text = text' := Except.ok.inj (htext.symm.trans htext')
  exact Option.some.inj (hc.symm.trans hc')

theorem readFile_eq_ok : readFile w file = .ok c ↔ ∃ written, Written w file written ∧ c = (Layer.mk file written).rebased w := by
  unfold readFile Written
  cases htext : w.readText file with
  | error e => simp [Except.mapError, bind, Except.bind]
  | ok text =>
    simp only [Except.mapError, bind, Except.bind, Except.ok.injEq, exists_eq_left']
    cases hc : ofYaml? text with
    | none => simp
    | some written => simp [Layer.rebased, eq_comm]

theorem Written.pathExists (h : Written w file c) : w.pathExists file = true := by
  obtain ⟨text, htext, -⟩ := h
  unfold World.readText FileTree.readText FileTree.readBytes at htext
  unfold World.pathExists FileTree.pathExists FileTree.found?
  split
  · rfl
  · next hno =>
    split at htext
    · next hl => exact absurd hl (hno _ _)
    · next hl => exact absurd hl (hno _ _)
    · cases htext
    · cases htext

/-- `file` extends another file, which it calls `name`. -/
def Extends (w : World) (file : Path) (name : String) : Prop :=
  preset? name = none ∧ ∃ c, Written w file c ∧ c.base = some name

/-- The files from `file` on, each extending the next, down to one that extends no file. What is known of that
one is only this: it may also be missing, or hold no configuration. -/
inductive Lineage (w : World) : Path → List Path → Prop where
  | last {file : Path} (h : ∀ name, ¬ Extends w file name) : Lineage w file [file]
  | extending {file : Path} {name : String} {rest : List Path} (h : Extends w file name)
      (hrest : Lineage w (basePath name file) rest) : Lineage w file (file :: rest)

theorem Extends.unique {name name' : String} (h : Extends w file name) (h' : Extends w file name') :
    name = name' := by
  obtain ⟨-, c, hc, hbase⟩ := h
  obtain ⟨-, c', hc', hbase'⟩ := h'
  obtain rfl := hc.unique hc'
  exact Option.some.inj (hbase.symm.trans hbase')

namespace Lineage

variable {files files' : List Path}

theorem unique (h : Lineage w file files) (h' : Lineage w file files') : files = files' := by
  induction h generalizing files' with
  | last h =>
    cases h' with
    | last => rfl
    | extending h' => exact absurd h' (h _)
  | extending h hrest ih =>
    cases h' with
    | last h' => exact absurd h (h' _)
    | extending h' hrest' =>
      obtain rfl := h.unique h'
      rw [ih hrest']

end Lineage

/-! ## Chains -/

namespace Chain

theorem written (h : Chain w file layers ground) : ∃ c, Written w file c := by
  cases h with
  | alone h | preset h | extending h => exact ⟨_, h⟩

theorem written_of_mem (h : Chain w file layers ground) {l : Layer} (hl : l ∈ layers) :
    Written w l.file l.written := by
  induction h with
  | alone h | preset h =>
    obtain rfl := List.mem_singleton.mp hl
    exact h
  | extending h hbase hpreset hrest ih =>
    rcases List.mem_cons.mp hl with rfl | hl
    · exact h
    · exact ih hl

theorem lineage (h : Chain w file layers ground) : Lineage w file (layers.map Layer.file) := by
  induction h with
  | alone h hbase =>
    apply Lineage.last
    rintro name ⟨-, c, hc, hname⟩
    rw [← h.unique hc, hbase] at hname
    cases hname
  | preset h hbase hpreset =>
    apply Lineage.last
    rintro name ⟨hnone, c, hc, hname⟩
    rw [← h.unique hc, hbase] at hname
    cases hname
    rw [hpreset] at hnone
    cases hnone
  | extending h hbase hpreset hrest ih => exact .extending ⟨hpreset, _, h, hbase⟩ ih

theorem pathExists (h : Chain w file layers ground) : w.pathExists file = true := by
  obtain ⟨c, hc⟩ := h.written
  exact hc.pathExists

end Chain

/-! ## Loading a chain -/

theorem loadExisting_of_written (h : Written w file c) :
    w.loadExisting file =
      let own := (Layer.mk file c).rebased w
      match c.base with
      | none => some (.ok own)
      | some name =>
        match preset? name with
        | some ground => some (.ok (own.layeredOver ground))
        | none =>
          if w.pathExists (basePath name file) then do
            let base ← w.loadExisting (basePath name file)
            return base.map own.layeredOver
          else some (.error (.missingBase name)) := by
  rw [World.loadExisting, readFile_eq_ok.mpr ⟨c, h, rfl⟩]
  rfl

/-- A file that extends another is laid over that one, if it is there. -/
theorem loadExisting_of_extends {name : String} (h : Written w file c) (hbase : c.base = some name)
    (hpreset : preset? name = none) (hexists : w.pathExists (basePath name file) = true) :
    w.loadExisting file =
      (w.loadExisting (basePath name file)).map fun base => base.map ((Layer.mk file c).rebased w).layeredOver := by
  rw [loadExisting_of_written h, hbase]
  simp only [hpreset, hexists, if_true]
  cases w.loadExisting (basePath name file) <;> rfl

theorem loadExisting_of_missingBase {name : String} (h : Written w file c) (hbase : c.base = some name)
    (hpreset : preset? name = none) (hmissing : w.pathExists (basePath name file) = false) :
    w.loadExisting file = some (.error (.missingBase name)) := by
  rw [loadExisting_of_written h, hbase]
  simp [hpreset, hmissing]

theorem loadExisting_of_chain (h : Chain w file layers ground) :
    w.loadExisting file = some (.ok (stack w layers ground)) := by
  induction h with
  | alone h hbase =>
    rw [loadExisting_of_written h, hbase]
    exact congrArg (fun c => some (Except.ok c)) (layeredOver_default _).symm
  | preset h hbase hpreset =>
    rw [loadExisting_of_written h, hbase]
    simp only [hpreset]
    rfl
  | extending h hbase hpreset hrest ih =>
    rw [loadExisting_of_extends h hbase hpreset hrest.pathExists, ih]
    rfl

/-! ## Loading has a result if the line ends -/

theorem Lineage.of_missing (h : w.pathExists file = false) : Lineage w file [file] := by
  apply Lineage.last
  rintro name ⟨-, c, hc, -⟩
  rw [hc.pathExists] at h
  cases h

/-- Whether the line from a file ends rests with the next file, if that one is there. -/
theorem exists_lineage_of_next (h : ∀ name, Extends w file name → w.pathExists (basePath name file) = true →
    ∃ rest, Lineage w (basePath name file) rest) : ∃ files, Lineage w file files := by
  by_cases hextends : ∃ name, Extends w file name
  · obtain ⟨name, hextends⟩ := hextends
    cases hexists : w.pathExists (basePath name file) with
    | true =>
      obtain ⟨rest, hrest⟩ := h name hextends hexists
      exact ⟨file :: rest, .extending hextends hrest⟩
    | false => exact ⟨[file, _], .extending hextends (.of_missing hexists)⟩
  · exact ⟨[file], .last (not_exists.mp hextends)⟩

/-- Loading has a result only if the line of files ends. -/
theorem lineage_of_loadExisting {r : Except LoadError Config} (h : w.loadExisting file = some r) :
    ∃ files, Lineage w file files := by
  refine World.loadExisting.partial_correctness w (fun file _ => ∃ files, Lineage w file files) ?_ file r h
  intro load ih file r hr
  apply exists_lineage_of_next
  rintro name ⟨hpreset, c, hc, hbase⟩ hexists
  have hown : ((Layer.mk file c).rebased w).base = some name := hbase
  simp only [readFile_eq_ok.mpr ⟨c, hc, rfl⟩, hown, hpreset, hexists, if_true] at hr
  obtain ⟨base, hload, -⟩ := Option.bind_eq_some_iff.mp hr
  exact ih _ _ hload

/-- A file that extends no file is a chain by itself, if it can be read. -/
theorem loadExisting_of_last (h : ∀ name, ¬ Extends w file name) :
    (∃ e, w.loadExisting file = some (.error e)) ∨ ∃ layers ground, Chain w file layers ground := by
  cases hread : readFile w file with
  | error e => exact Or.inl ⟨e, by rw [World.loadExisting, hread]⟩
  | ok own =>
    obtain ⟨c, hc, -⟩ := readFile_eq_ok.mp hread
    right
    cases hbase : c.base with
    | none => exact ⟨_, _, .alone hc hbase⟩
    | some name =>
      cases hpreset : preset? name with
      | some ground => exact ⟨_, _, .preset hc hbase hpreset⟩
      | none => exact absurd ⟨hpreset, c, hc, hbase⟩ (h name)

theorem chain_of_loadExisting (h : w.loadExisting file = some (.ok c)) :
    ∃ layers ground, Chain w file layers ground ∧ c = stack w layers ground := by
  obtain ⟨files, hline⟩ := lineage_of_loadExisting h
  induction hline generalizing c with
  | last hlast =>
    rcases loadExisting_of_last hlast with ⟨e, hload⟩ | ⟨layers, ground, hchain⟩
    · rw [hload] at h
      cases h
    · rw [loadExisting_of_chain hchain] at h
      cases h
      exact ⟨layers, ground, hchain, rfl⟩
  | @extending file name rest hextends hrest ih =>
    obtain ⟨hpreset, written, hwritten, hbase⟩ := hextends
    cases hexists : w.pathExists (basePath name file) with
    | false =>
      rw [loadExisting_of_missingBase hwritten hbase hpreset hexists] at h
      cases h
    | true =>
      rw [loadExisting_of_extends hwritten hbase hpreset hexists] at h
      obtain ⟨r, hr, hmap⟩ := Option.map_eq_some_iff.mp h
      cases r with
      | error e => cases hmap
      | ok base =>
        cases hmap
        obtain ⟨layers, ground, hchain, rfl⟩ := ih hr
        exact ⟨_, _, .extending hwritten hbase hpreset hchain, rfl⟩

/-- What a file that may be missing amounts to. -/
def Layered (w : World) (file : Path) (layers : List Layer) (ground : Config) : Prop :=
  Chain w file layers ground ∨ w.pathExists file = false ∧ layers = [] ∧ ground = {}

theorem Layered.loadFile_eq (h : Layered w file layers ground) :
    loadFile w file = some (.ok (stack w layers ground)) := by
  unfold loadFile
  rcases h with h | ⟨hmissing, rfl, rfl⟩
  · rw [if_pos h.pathExists]
    exact loadExisting_of_chain h
  · rw [if_neg (by simp [hmissing])]
    rfl

theorem layered_of_loadFile (h : loadFile w file = some (.ok c)) :
    ∃ layers ground, Layered w file layers ground ∧ c = stack w layers ground := by
  unfold loadFile at h
  split at h
  · obtain ⟨layers, ground, hchain, hc⟩ := chain_of_loadExisting h
    exact ⟨layers, ground, Or.inl hchain, hc⟩
  · next hmissing =>
    cases h
    exact ⟨[], {}, Or.inr ⟨by simpa using hmissing, rfl, rfl⟩, rfl⟩

end Config

end ScriptInclude
