import ScriptInclude.Proofs.Chains

/-!
# What loading a line of files gives

All files of a line but the last are configurations, since they say what they extend. So it rests with the last
file whether the first one can be loaded. If it can, its own layer lies on top, and below it lie the layers of
the others in their order; if not, the error is the one that the last file gives.
-/

namespace ScriptInclude

namespace Config

variable {w : World} {file : Path} {files : List Path} {layers : List Layer}

/-- What a layer lies on if it is the last: the preset that it extends, or the configuration that says nothing. -/
def Layer.ground (l : Layer) : Config := (l.written.base.bind preset?).getD {}

/-! ## Lines that load -/

theorem exists_layers (h : ∀ f ∈ files, ∃ c, Written w f c) :
    ∃ layers : List Layer, layers.map Layer.file = files ∧ ∀ l ∈ layers, Written w l.file l.written := by
  induction files with
  | nil => exact ⟨[], rfl, fun l hl => absurd hl List.not_mem_nil⟩
  | cons f files ih =>
    obtain ⟨⟨c, hc⟩, hrest⟩ := List.forall_mem_cons.mp h
    obtain ⟨layers, hfiles, hwritten⟩ := ih hrest
    refine ⟨⟨f, c⟩ :: layers, by rw [List.map_cons, hfiles], ?_⟩
    exact List.forall_mem_cons.mpr ⟨hc, hwritten⟩

namespace Lineage

theorem chain (h : Lineage w file files) (hfiles : layers.map Layer.file = files)
    (hwritten : ∀ l ∈ layers, Written w l.file l.written) :
    ∃ first last, layers.head? = some first ∧ layers.getLast? = some last ∧
      Chain w file layers last.ground := by
  induction h generalizing layers with
  | @last file h =>
    obtain ⟨l, rfl, rfl⟩ := List.map_eq_singleton_iff.mp hfiles
    have hl : Written w l.file l.written := hwritten l (List.mem_singleton_self l)
    refine ⟨l, l, rfl, rfl, ?_⟩
    unfold Layer.ground
    cases hbase : l.written.base with
    | none => exact .alone hl hbase
    | some name =>
      cases hpreset : preset? name with
      | none => exact absurd ⟨hpreset, l.written, hl, hbase⟩ (h name)
      | some ground => exact .preset hl hbase (by simp [hpreset])
  | @extending file name rest h hrest ih =>
    obtain ⟨l, layers, rfl, rfl, hlayers⟩ := List.map_eq_cons_iff.mp hfiles
    obtain ⟨hl, htail⟩ := List.forall_mem_cons.mp hwritten
    obtain ⟨first, last, -, hlast, hchain⟩ := ih hlayers htail
    obtain ⟨hpreset, c, hc, hbase⟩ := h
    obtain rfl := hc.unique hl
    refine ⟨l, last, rfl, ?_, .extending hl hbase hpreset hchain⟩
    rw [List.getLast?_cons, hlast]
    rfl

theorem pathExists_of_tail (h : Lineage w file files) {f : Path} (hf : f ∈ files.tail) : w.pathExists file = true := by
  cases h with
  | last => cases hf
  | extending h hrest =>
    obtain ⟨-, c, hc, -⟩ := h
    exact hc.pathExists

theorem head_or_tail (h : Lineage w file files) {f : Path} (hf : f ∈ files) : f = file ∨ f ∈ files.tail := by
  cases h with
  | last => exact Or.inl (List.mem_singleton.mp hf)
  | extending => exact List.mem_cons.mp hf

theorem pathExists_of_mem (h : Lineage w file files) {f : Path} (hf : f ∈ files) (hexists : w.pathExists f = true) :
    w.pathExists file = true := by
  rcases h.head_or_tail hf with rfl | htail
  · exact hexists
  · exact h.pathExists_of_tail htail

/-! ## Lines that do not load -/

/-- A file that is there and cannot be read is the last one, and loading fails as reading it does. -/
theorem loadExisting_of_error (h : Lineage w file files) {f : Path} (hf : f ∈ files)
    (hexists : w.pathExists f = true) {e : LoadError} (hread : readFile w f = .error e) :
    w.loadExisting file = some (.error e) := by
  induction h with
  | last h =>
    obtain rfl := List.mem_singleton.mp hf
    rw [World.loadExisting, hread]
  | extending h hrest ih =>
    obtain ⟨hpreset, c, hc, hbase⟩ := h
    rcases List.mem_cons.mp hf with rfl | hf
    · rw [readFile_eq_ok.mpr ⟨c, hc, rfl⟩] at hread
      cases hread
    · rw [loadExisting_of_extends hc hbase hpreset (hrest.pathExists_of_mem hf hexists), ih hf]
      rfl

/-- Below the first file, one that is missing is the last one, and it is missed by the file that extends it. -/
theorem loadExisting_of_missing (h : Lineage w file files) {f : Path} (hf : f ∈ files.tail)
    (hmissing : w.pathExists f = false) :
    ∃ before name, Extends w before name ∧ f = basePath name before ∧
      w.loadExisting file = some (.error (.missingBase name)) := by
  induction h with
  | last h => cases hf
  | @extending file name rest h hrest ih =>
    have hextends := h
    obtain ⟨hpreset, c, hc, hbase⟩ := h
    rcases hrest.head_or_tail hf with rfl | htail
    · exact ⟨file, name, hextends, rfl, loadExisting_of_missingBase hc hbase hpreset hmissing⟩
    · obtain ⟨before, name', hbefore, hname', hload⟩ := ih htail
      refine ⟨before, name', hbefore, hname', ?_⟩
      rw [loadExisting_of_extends hc hbase hpreset (hrest.pathExists_of_tail htail), hload]
      rfl

end Lineage

/-! ## Loading -/

/-- **Loading a line of files is a fold.** The first file is loaded, if it is there, exactly if every file of the
line can be read; it is then laid over the second, that one over the third, and so on, each with its paths taken
once from its own directory, and it keeps what it says it extends. Else the error is that of the last file. -/
theorem load_of_lineage (w : World) (file : Path) (files : List Path) (h : Lineage w file files) :
    (w.pathExists file = true → ((∃ c, load w (some file) = some (.ok c)) ↔ ∀ f ∈ files, ∃ c, Written w f c)) ∧
      (∀ layers, layers.map Layer.file = files → (∀ l ∈ layers, Written w l.file l.written) →
        ∃ first last, layers.head? = some first ∧ layers.getLast? = some last ∧
          load w (some file) = some (.ok (stack w layers last.ground)) ∧
          (stack w layers last.ground).base = first.written.base) ∧
      (∀ c : Config, c.layeredOver {} = c) ∧
      (∀ f ∈ files, w.pathExists f = true → ∀ e, readFile w f = .error e → load w (some file) = some (.error e)) ∧
      (∀ f ∈ files.tail, w.pathExists f = false →
        ∃ before name, Extends w before name ∧ f = basePath name before ∧
          load w (some file) = some (.error (.missingBase name))) ∧
      (w.pathExists file = false → load w (some file) = some (.ok {})) := by
  have hload : w.pathExists file = true → load w (some file) = w.loadExisting file := by
    intro hexists
    show loadFile w file = _
    rw [loadFile, if_pos hexists]
  have hstack : ∀ layers, layers.map Layer.file = files → (∀ l ∈ layers, Written w l.file l.written) →
      ∃ first last, layers.head? = some first ∧ layers.getLast? = some last ∧
        load w (some file) = some (.ok (stack w layers last.ground)) ∧
        (stack w layers last.ground).base = first.written.base := by
    intro layers hfiles hwritten
    obtain ⟨first, last, hfirst, hlast, hchain⟩ := h.chain hfiles hwritten
    obtain ⟨rest, rfl⟩ := List.head?_eq_some_iff.mp hfirst
    exact ⟨first, last, hfirst, hlast, Layered.loadFile_eq (Or.inl hchain), rfl⟩
  refine ⟨?_, hstack, layeredOver_default, ?_, ?_, ?_⟩
  · intro hexists
    constructor
    · rintro ⟨c, hc⟩ f hf
      rw [hload hexists] at hc
      obtain ⟨layers, ground, hchain, -⟩ := chain_of_loadExisting hc
      rw [h.unique hchain.lineage] at hf
      obtain ⟨l, hl, rfl⟩ := List.mem_map.mp hf
      exact ⟨l.written, hchain.written_of_mem hl⟩
    · intro hall
      obtain ⟨layers, hfiles, hwritten⟩ := exists_layers hall
      obtain ⟨first, last, -, -, hok, -⟩ := hstack layers hfiles hwritten
      exact ⟨_, hok⟩
  · intro f hf hexists e hread
    rw [hload (h.pathExists_of_mem hf hexists)]
    exact h.loadExisting_of_error hf hexists hread
  · intro f hf hmissing
    rw [hload (h.pathExists_of_tail hf)]
    exact h.loadExisting_of_missing hf hmissing
  · intro hmissing
    show loadFile w file = _
    rw [loadFile, if_neg (by simp [hmissing])]

/-- Three files in three directories; the last extends a preset, and a directory that two of them name comes once. -/
theorem load_of_lineage_three_directories :
    let childText : String := "extends: ../base/mid.yaml\nmodule-path: [m]\nexport-files:\n- path: ../out/T.cmake\n"
    let midText : String := "extends: sub/root.yaml\nmodule-path: [n]\nmodules-root: share\npolicies:\n  CMP0024: WARN\n"
    let rootText : String := "extends: strict\nmodule-path: [../../conf/m, ../m]\n"
    let tree : FileTree := { entries := [(["w"], .directory), (["w", "conf"], .directory),
      (["w", "conf", "child.yaml"], .file childText.toUTF8), (["w", "base"], .directory),
      (["w", "base", "mid.yaml"], .file midText.toUTF8), (["w", "base", "sub"], .directory),
      (["w", "base", "sub", "root.yaml"], .file rootText.toUTF8)] }
    let w : World := { tree, cwd := ⟨"/w"⟩ }
    ∃ files, Lineage w ⟨"conf/child.yaml"⟩ files ∧ files.length = 3 ∧
      load w (some ⟨"conf/child.yaml"⟩) = some (.ok {
        base := some "../base/mid.yaml"
        modulePath := [⟨"/w/conf/m"⟩, ⟨"/w/base/n"⟩, ⟨"/w/base/m"⟩]
        modulesRoot := some ⟨"/w/base/share"⟩
        policies := Dictionary.empty.insert "CMP0024" .warn
        exportFiles := [⟨⟨"/w/out/T.cmake"⟩, []⟩] }) := by
  intro childText midText rootText tree w
  let child : Config :=
    { base := some "../base/mid.yaml", modulePath := [⟨"m"⟩], exportFiles := [⟨⟨"../out/T.cmake"⟩, []⟩] }
  let mid : Config := {
    base := some "sub/root.yaml"
    modulePath := [⟨"n"⟩]
    modulesRoot := some ⟨"share"⟩
    policies := Dictionary.empty.insert "CMP0024" .warn }
  let root : Config := { base := some "strict", modulePath := [⟨"../../conf/m"⟩, ⟨"../m"⟩] }
  let layers : List Layer :=
    [⟨⟨"conf/child.yaml"⟩, child⟩, ⟨⟨"conf/../base/mid.yaml"⟩, mid⟩, ⟨⟨"conf/../base/sub/root.yaml"⟩, root⟩]
  have hchild : Written w ⟨"conf/child.yaml"⟩ child := ⟨childText, by decide +kernel, by decide +kernel⟩
  have hmid : Written w (basePath "../base/mid.yaml" ⟨"conf/child.yaml"⟩) mid :=
    ⟨midText, by decide +kernel, by decide +kernel⟩
  have hroot : Written w (basePath "sub/root.yaml" ⟨"conf/../base/mid.yaml"⟩) root :=
    ⟨rootText, by decide +kernel, by decide +kernel⟩
  have hline : Lineage w ⟨"conf/child.yaml"⟩ (layers.map Layer.file) :=
    (Chain.extending hchild rfl rfl (.extending hmid rfl rfl (.preset hroot rfl rfl))).lineage
  have hwritten : ∀ l ∈ layers, Written w l.file l.written := by
    intro l hl
    rcases List.mem_cons.mp hl with rfl | hl
    · exact hchild
    · rcases List.mem_cons.mp hl with rfl | hl
      · exact hmid
      · obtain rfl := List.mem_singleton.mp hl
        exact hroot
  obtain ⟨-, hstack, -⟩ := load_of_lineage w ⟨"conf/child.yaml"⟩ (layers.map Layer.file) hline
  obtain ⟨first, last, -, hlast, hload, -⟩ := hstack layers rfl hwritten
  obtain rfl := Option.some.inj hlast
  exact ⟨layers.map Layer.file, hline, rfl, hload.trans (by decide +kernel)⟩

end Config

end ScriptInclude
