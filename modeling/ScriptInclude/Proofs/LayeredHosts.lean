import ScriptInclude.Proofs.Chains
import ScriptInclude.Proofs.Layering
import ScriptInclude.Proofs.ModuleSearch
import ScriptInclude.Proofs.PolicyLayers
import ScriptInclude.Proofs.Writing

/-!
# Hosts of layered configurations

Laying a configuration over another drops what is there already, and so do the options of a command line. What
is dropped stands behind something with the same path, so a search for the first of its kind does not see the
difference: a host searches its layers as if they had been written one after the other.
-/

namespace ScriptInclude

/-! ## Searching lists without doubles -/

theorem find?_foldl_addTo (own base : List ExportFile) (p : Path) :
    (base.foldl Config.addTo own).find? (fun e => decide (e.path.Same p)) =
      (own ++ base).find? fun e => decide (e.path.Same p) := by
  rw [addTo_eq]
  refine find?_foldl_addDistinct ?_
  intro x _ y _ hsame
  exact decide_eq_decide.mpr ⟨hsame.symm.trans, hsame.trans⟩

theorem find?_foldl_addPath {own base : List Path} (hflat : ∀ p ∈ own ++ base, p.flatten = p) (test : Path → Bool) :
    (base.foldl Config.addPath own).find? test = (own ++ base).find? test := by
  rw [addPath_eq]
  refine find?_foldl_addDistinct ?_
  intro x hx y hy hsame
  rw [Path.eq_of_same (hflat x hx) (hflat y hy) hsame]

namespace Config

variable {w : World} {file : Path} {layers : List Layer} {ground : Config}

/-! ## What the layers say -/

namespace Layer

def exportFiles (w : World) (l : Layer) : List ExportFile :=
  l.written.exportFiles.map fun e => { e with path := e.path.collapse (directoryOf w l.file) }

def modulePath (w : World) (l : Layer) : List Path :=
  l.written.modulePath.map fun dir => dir.collapse (directoryOf w l.file)

def modulesRoot (w : World) (l : Layer) : Option Path :=
  l.written.modulesRoot.map fun dir => dir.collapse (directoryOf w l.file)

end Layer

/-- A file that is laid over nothing, or over a preset, is laid over policies only. -/
theorem Chain.ground_eq (h : Chain w file layers ground) : ground = { policies := ground.policies } := by
  induction h with
  | alone => rfl
  | preset h hbase hpreset =>
    unfold preset? at hpreset
    split at hpreset <;> cases hpreset <;> rfl
  | extending h hbase hpreset hrest ih => exact ih

theorem Layered.ground_eq (h : Layered w file layers ground) : ground = { policies := ground.policies } := by
  rcases h with h | ⟨-, -, rfl⟩
  · exact h.ground_eq
  · rfl

theorem find?_stack_exportFiles (hground : ground.exportFiles = []) (p : Path) :
    (stack w layers ground).exportFiles.find? (fun e => decide (e.path.Same p)) =
      (layers.flatMap (Layer.exportFiles w)).find? fun e => decide (e.path.Same p) := by
  induction layers with
  | nil => exact congrArg (List.find? _) hground
  | cons l layers ih =>
    have hstep : (stack w (l :: layers) ground).exportFiles =
        (stack w layers ground).exportFiles.foldl addTo (l.exportFiles w) := rfl
    rw [hstep, find?_foldl_addTo, List.find?_append, ih, List.flatMap_cons, List.find?_append]

theorem flatten_of_mem_modulePath {l : Layer} {dir : Path} (h : dir ∈ l.modulePath w) : dir.flatten = dir := by
  obtain ⟨written, -, rfl⟩ := List.mem_map.mp h
  exact Path.flatten_collapse written _

theorem flatten_of_mem_stack (hground : ground.modulePath = []) {dir : Path}
    (h : dir ∈ (stack w layers ground).modulePath) : dir.flatten = dir := by
  induction layers with
  | nil =>
    have hnil : dir ∈ ground.modulePath := h
    rw [hground] at hnil
    cases hnil
  | cons l layers ih =>
    have hfold : dir ∈ (stack w layers ground).modulePath.foldl (addDistinct id) (l.modulePath w) := h
    rcases mem_of_mem_foldl_addDistinct hfold with h | h
    · exact flatten_of_mem_modulePath h
    · exact ih h

theorem find?_stack_modulePath (hground : ground.modulePath = []) (test : Path → Bool) :
    (stack w layers ground).modulePath.find? test = (layers.flatMap (Layer.modulePath w)).find? test := by
  induction layers with
  | nil => exact congrArg (List.find? test) hground
  | cons l layers ih =>
    have hstep : (stack w (l :: layers) ground).modulePath =
        (stack w layers ground).modulePath.foldl addPath (l.modulePath w) := rfl
    have hflat : ∀ dir ∈ l.modulePath w ++ (stack w layers ground).modulePath, dir.flatten = dir := by
      intro dir hdir
      rcases List.mem_append.mp hdir with hdir | hdir
      · exact flatten_of_mem_modulePath hdir
      · exact flatten_of_mem_stack hground hdir
    rw [hstep, find?_foldl_addPath hflat, List.find?_append, ih, List.flatMap_cons, List.find?_append]

theorem stack_modulesRoot (w : World) (layers : List Layer) (ground : Config) :
    (stack w layers ground).modulesRoot = (layers.findSome? (Layer.modulesRoot w)).or ground.modulesRoot := by
  induction layers with
  | nil => rfl
  | cons l layers ih =>
    have hstep : (stack w (l :: layers) ground).modulesRoot =
        (l.modulesRoot w).or (stack w layers ground).modulesRoot := rfl
    rw [hstep, ih, List.findSome?_cons]
    cases l.modulesRoot w <;> rfl

end Config

/-! ## What the options add -/

namespace CommandLine

def registered (cl : CommandLine) (sourceDir : Path) : List ExportFile :=
  cl.exportFiles.map fun p => ⟨p.collapse sourceDir, []⟩

def moduleDirs (cl : CommandLine) (sourceDir : Path) : List Path := cl.modulePath.map fun dir => dir.collapse sourceDir

theorem applyPolicies_eq {c c' : Config} {settings : List (String × String)} {r : Except PolicyError Unit}
    (h : applyPolicies c settings = (c', r)) : c' = { c with policies := c'.policies } := by
  induction settings generalizing c with
  | nil => cases h; rfl
  | cons x rest ih =>
    unfold applyPolicies at h
    split at h
    · cases h; rfl
    · cases h; rfl
    · have hrest := ih h
      exact hrest

theorem override_eq {cl : CommandLine} {sourceDir : Path} {c c' : Config} {r : Except PolicyError Unit}
    (h : cl.override sourceDir c = (c', r)) :
    c' = { c with
      modulePath := cl.moduleDirs sourceDir ++ c.modulePath
      exportFiles := (cl.registered sourceDir).foldl Config.addTo c.exportFiles
      policies := c'.policies } := by
  have hpolicies := applyPolicies_eq h
  rwa [foldl_addExportFile_eq] at hpolicies

end CommandLine

/-! ## What the host has -/

namespace Config

variable {w : World} {layers : List Layer} {ground : Config}

/-- All files that layers and options register, in the order in which they count. -/
def registered (w : World) (layers : List Layer) (cl : CommandLine) (sourceDir : Path) : List ExportFile :=
  layers.flatMap (Layer.exportFiles w) ++ cl.registered sourceDir

/-- All directories that options and layers name, in the order in which they count. -/
def searched (w : World) (layers : List Layer) (cl : CommandLine) (sourceDir : Path) : List Path :=
  cl.moduleDirs sourceDir ++ layers.flatMap (Layer.modulePath w) ++
    (layers.findSome? (Layer.modulesRoot w)).toList

theorem exportFile?_layered {cl : CommandLine} {sourceDir : Path} {c' : Config} {i : Interpreter}
    (hground : ground = { policies := ground.policies })
    (hover : cl.override sourceDir (stack w layers ground) = (c', .ok ())) (hi : c'.interpreter = .ok i) (p : Path) :
    i.exportFile? p = (registered w layers cl sourceDir).find? fun e => decide (e.path.Same p) := by
  obtain ⟨settings, -, hnew⟩ := interpreter_eq_ok.mp hi
  have hfiles : i.exportFiles = c'.exportFiles := by rw [hnew]
  have hexport : c'.exportFiles = (cl.registered sourceDir).foldl addTo (stack w layers ground).exportFiles := by
    rw [CommandLine.override_eq hover]
  have hbare : ground.exportFiles = [] := by rw [hground]
  rw [Interpreter.exportFile?, hfiles, hexport, find?_foldl_addTo, List.find?_append, find?_stack_exportFiles hbare,
    registered, List.find?_append]

theorem find?_moduleDirs_layered {cl : CommandLine} {sourceDir : Path} {c' : Config} {i : Interpreter}
    (hground : ground = { policies := ground.policies })
    (hover : cl.override sourceDir (stack w layers ground) = (c', .ok ())) (hi : c'.interpreter = .ok i)
    (test : Path → Bool) : i.moduleDirs.find? test = (searched w layers cl sourceDir).find? test := by
  obtain ⟨settings, -, hnew⟩ := interpreter_eq_ok.mp hi
  have hdirs : i.moduleDirs = c'.modulePath ++ c'.modulesRoot.toList := by rw [hnew]
  have hpath : c'.modulePath = cl.moduleDirs sourceDir ++ (stack w layers ground).modulePath := by
    rw [CommandLine.override_eq hover]
  have hroot : c'.modulesRoot = layers.findSome? (Layer.modulesRoot w) := by
    have hbare : ground.modulesRoot = none := by rw [hground]
    rw [CommandLine.override_eq hover]
    change (stack w layers ground).modulesRoot = _
    rw [stack_modulesRoot, hbare, Option.or_none]
  have hbare : ground.modulePath = [] := by rw [hground]
  rw [hdirs, hpath, hroot, searched]
  simp only [List.find?_append, find?_stack_modulePath hbare]

/-! ## No exported file is lost -/

open Session (generate_of_ok generate_of_error)

/-- **No exported file is lost.** A host knows a path as an exported file exactly if one of the layers or the
command line registers it, and what it generates there is what the first of them asks for. -/
theorem exports_of_layers (cl : CommandLine) (w : World) (layers : List Layer) (ground : Config)
    (h : Layered w (cl.config.getD (defaultFile w)) layers ground) (sourceDir : Path) :
    ∃ c, load w cl.config = some (.ok c) ∧ ∀ c' i, cl.override sourceDir c = (c', .ok ()) → c'.interpreter = .ok i →
      ∀ (now : World) (p : Path),
        let s : Session := ⟨i, now⟩
        (Host.isExported s p = true ↔ ∃ e ∈ registered w layers cl sourceDir, e.path.Same p) ∧
          ∀ e, (registered w layers cl sourceDir).find? (fun e => decide (e.path.Same p)) = some e →
            (∀ after, e.write now = (after, .ok ()) →
              s.generate p = ⟨{ i with generated := i.generated ++ [e.path] }, after⟩ ∧
                after.readText e.path =
                  .ok (ExportFile.header now.now ++ String.join (e.targets.map ExportFile.targetLine))) ∧
            ∀ after err, e.write now = (after, .error err) →
              s.generate p = ⟨i.report ⟨.warning, err.message⟩, after⟩ := by
  refine ⟨stack w layers ground, h.loadFile_eq, ?_⟩
  intro c' i hover hi now p s
  have hfound : i.exportFile? p = (registered w layers cl sourceDir).find? fun e => decide (e.path.Same p) :=
    exportFile?_layered h.ground_eq hover hi p
  constructor
  · change (i.exportFile? p).isSome = true ↔ _
    rw [hfound, List.find?_isSome]
    simp only [decide_eq_true_eq]
  · intro e he
    rw [← hfound] at he
    refine ⟨?_, ?_⟩
    · intro after hwrite
      exact ⟨generate_of_ok (s := s) he hwrite, ExportFile.readText_of_write hwrite⟩
    · intro after err hwrite
      exact generate_of_error (s := s) he hwrite

/-- The base and the command line register the file of the first layer once more. -/
theorem exports_of_layers_doubled :
    let ownText : String := "extends: sub/b.yaml\nexport-files:\n- path: T.cmake\n  targets: [Own]\n"
    let baseText : String := "export-files:\n- path: ../T.cmake\n  targets: [Base]\n- path: U.cmake\n"
    let tree : FileTree := { entries := [(["w"], .directory), (["w", "a.yaml"], .file ownText.toUTF8),
      (["w", "sub"], .directory), (["w", "sub", "b.yaml"], .file baseText.toUTF8)] }
    let w : World := { tree, cwd := ⟨"/w"⟩, now := "Monday" }
    let cl : CommandLine := { config := some ⟨"a.yaml"⟩, exportFiles := [⟨"T.cmake"⟩, ⟨"V.cmake"⟩] }
    ∃ layers c c' i after, Layered w ⟨"a.yaml"⟩ layers {} ∧ layers.length = 2 ∧ load w cl.config = some (.ok c) ∧
      cl.override ⟨"/w"⟩ c = (c', .ok ()) ∧ c'.interpreter = .ok i ∧
      (∀ p ∈ [⟨"/w/./T.cmake"⟩, ⟨"/w/sub/U.cmake"⟩, ⟨"/w/V.cmake"⟩], Host.isExported (⟨i, w⟩ : Session) p = true) ∧
      Host.isExported (⟨i, w⟩ : Session) ⟨"/w/U.cmake"⟩ = false ∧
      Session.generate ⟨"/w/./T.cmake"⟩ ⟨i, w⟩ = ⟨{ i with generated := [⟨"/w/T.cmake"⟩] }, after⟩ ∧
      after.readText ⟨"/w/T.cmake"⟩ =
        .ok "# Generated by export() on Monday. Do not edit.\nadd_library(Own UNKNOWN IMPORTED)\n" := by
  intro ownText baseText tree w cl
  let own : Config := { base := some "sub/b.yaml", exportFiles := [⟨⟨"T.cmake"⟩, ["Own"]⟩] }
  let base : Config := { exportFiles := [⟨⟨"../T.cmake"⟩, ["Base"]⟩, ⟨⟨"U.cmake"⟩, []⟩] }
  let layers : List Layer := [⟨⟨"a.yaml"⟩, own⟩, ⟨⟨"sub/b.yaml"⟩, base⟩]
  let first : ExportFile := ⟨⟨"/w/T.cmake"⟩, ["Own"]⟩
  let i : Interpreter := { exportFiles := [first, ⟨⟨"/w/sub/U.cmake"⟩, []⟩, ⟨⟨"/w/V.cmake"⟩, []⟩] }
  have hown : Written w ⟨"a.yaml"⟩ own := ⟨ownText, by decide +kernel, by decide +kernel⟩
  have hbase : Written w (basePath "sub/b.yaml" ⟨"a.yaml"⟩) base := ⟨baseText, by decide +kernel, by decide +kernel⟩
  have hlayers : Layered w ⟨"a.yaml"⟩ layers {} := Or.inl (.extending hown rfl rfl (.alone hbase rfl))
  have hwritten : ∃ after, first.write w = (after, .ok ()) := by
    have hok : (first.write w).2.isOk = true := by decide +kernel
    cases hwrite : first.write w with
    | mk after r =>
      rw [hwrite] at hok
      cases r with
      | ok u => exact ⟨after, rfl⟩
      | error e => cases hok
  obtain ⟨after, hafter⟩ := hwritten
  obtain ⟨c, hload, hhost⟩ := exports_of_layers cl w layers {} hlayers ⟨"/w"⟩
  obtain rfl : stack w layers {} = c := Except.ok.inj (Option.some.inj (hlayers.loadFile_eq.symm.trans hload))
  let c' : Config := { base := some "sub/b.yaml", exportFiles := i.exportFiles }
  have hover : cl.override ⟨"/w"⟩ (stack w layers {}) = (c', .ok ()) := by decide +kernel
  have hstate := hhost c' i hover rfl w
  have hfirst : (registered w layers cl ⟨"/w"⟩).find? (fun e => decide (e.path.Same ⟨"/w/./T.cmake"⟩)) = some first := by
    decide +kernel
  obtain ⟨hgenerate, hread⟩ := ((hstate ⟨"/w/./T.cmake"⟩).2 first hfirst).1 after hafter
  refine ⟨layers, _, c', i, after, hlayers, rfl, hload, hover, rfl, ?_, by decide +kernel, hgenerate, hread⟩
  intro p hp
  have hsome : ∀ p ∈ [⟨"/w/./T.cmake"⟩, ⟨"/w/sub/U.cmake"⟩, ⟨"/w/V.cmake"⟩],
      ∃ e ∈ registered w layers cl ⟨"/w"⟩, e.path.Same p := by decide +kernel
  exact (hstate p).1.mpr (hsome p hp)

/-! ## Where modules are found -/

/-- **Where modules are found.** A host looks for a module in all directories that the command line and the layers
name, in order and with nothing left out, and last in the root of the nearest layer that has one. -/
theorem findModule?_of_layers (cl : CommandLine) (w : World) (layers : List Layer) (ground : Config)
    (h : Layered w (cl.config.getD (defaultFile w)) layers ground) (sourceDir : Path) :
    ∃ c, load w cl.config = some (.ok c) ∧ ∀ c' i, cl.override sourceDir c = (c', .ok ()) → c'.interpreter = .ok i →
      ∀ (now : World) (fileName : String),
        Host.findModule? (⟨i, now⟩ : Session) fileName =
          (((searched w layers cl sourceDir).map fun dir => dir.join ⟨fileName⟩).find? now.isFile).map fun p =>
            p.collapse now.cwd := by
  refine ⟨stack w layers ground, h.loadFile_eq, ?_⟩
  intro c' i hover hi now fileName
  have hfound := find?_moduleDirs_layered h.ground_eq hover hi (now.finds fileName)
  change Session.findModule? ⟨i, now⟩ fileName = _
  rw [Session.findModule?_eq, hfound, List.find?_map, Option.map_map]
  rfl

/-- A directory that two layers name, and a module that stands in none before the second of the base. -/
theorem findModule?_of_layers_base :
    let ownText : String := "extends: sub/b.yaml\nmodule-path: [m]\n"
    let baseText : String := "module-path: [../m, n]\nmodules-root: root\n"
    let tree : FileTree := { entries := [(["w"], .directory), (["w", "a.yaml"], .file ownText.toUTF8),
      (["w", "sub"], .directory), (["w", "sub", "b.yaml"], .file baseText.toUTF8), (["w", "sub", "n"], .directory),
      (["w", "sub", "n", "Foo.cmake"], .file .empty), (["w", "sub", "root"], .directory),
      (["w", "sub", "root", "Foo.cmake"], .file .empty)] }
    let w : World := { tree, cwd := ⟨"/w"⟩ }
    let cl : CommandLine := { config := some ⟨"a.yaml"⟩, modulePath := [⟨"x"⟩, ⟨"m"⟩] }
    ∃ layers c c' i, Layered w ⟨"a.yaml"⟩ layers {} ∧ load w cl.config = some (.ok c) ∧
      cl.override ⟨"/w"⟩ c = (c', .ok ()) ∧ c'.interpreter = .ok i ∧
      searched w layers cl ⟨"/w"⟩ =
        [⟨"/w/x"⟩, ⟨"/w/m"⟩, ⟨"/w/m"⟩, ⟨"/w/m"⟩, ⟨"/w/sub/n"⟩, ⟨"/w/sub/root"⟩] ∧
      i.moduleDirs.length = 5 ∧ Host.findModule? (⟨i, w⟩ : Session) "Foo.cmake" = some ⟨"/w/sub/n/Foo.cmake"⟩ := by
  intro ownText baseText tree w cl
  let own : Config := { base := some "sub/b.yaml", modulePath := [⟨"m"⟩] }
  let base : Config := { modulePath := [⟨"../m"⟩, ⟨"n"⟩], modulesRoot := some ⟨"root"⟩ }
  let layers : List Layer := [⟨⟨"a.yaml"⟩, own⟩, ⟨⟨"sub/b.yaml"⟩, base⟩]
  let dirs : List Path := [⟨"/w/x"⟩, ⟨"/w/m"⟩, ⟨"/w/m"⟩, ⟨"/w/sub/n"⟩]
  let i : Interpreter := { moduleDirs := dirs ++ [⟨"/w/sub/root"⟩] }
  have hown : Written w ⟨"a.yaml"⟩ own := ⟨ownText, by decide +kernel, by decide +kernel⟩
  have hbase : Written w (basePath "sub/b.yaml" ⟨"a.yaml"⟩) base := ⟨baseText, by decide +kernel, by decide +kernel⟩
  have hlayers : Layered w ⟨"a.yaml"⟩ layers {} := Or.inl (.extending hown rfl rfl (.alone hbase rfl))
  obtain ⟨c, hload, hhost⟩ := findModule?_of_layers cl w layers {} hlayers ⟨"/w"⟩
  obtain rfl : stack w layers {} = c := Except.ok.inj (Option.some.inj (hlayers.loadFile_eq.symm.trans hload))
  let c' : Config := { base := some "sub/b.yaml", modulePath := dirs, modulesRoot := some ⟨"/w/sub/root"⟩ }
  have hover : cl.override ⟨"/w"⟩ (stack w layers {}) = (c', .ok ()) := by decide +kernel
  have hfind := hhost c' i hover rfl w "Foo.cmake"
  exact ⟨layers, _, c', i, hlayers, hload, hover, rfl, by decide +kernel, rfl, hfind.trans (by decide +kernel)⟩

end Config

end ScriptInclude
