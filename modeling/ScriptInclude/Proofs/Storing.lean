import ScriptInclude.Config.Printing
import ScriptInclude.Proofs.LayeredHosts
import ScriptInclude.Proofs.MadeDirectories

/-!
# Storing what was loaded

A configuration that was loaded says all that its layers say, and still names its base. If it is stored and
loaded, its paths are rebased again and the base comes under it once more. Neither does anything: a flat absolute
path stands for itself, and a base adds nothing to what has it already.
-/

namespace ScriptInclude

namespace Config

/-! ## Paths that stand for themselves -/

/-- The directories and files that a configuration names. -/
def named (c : Config) : List Path := c.modulePath ++ c.modulesRoot.toList ++ c.exportFiles.map ExportFile.path

theorem named_rebase (c : Config) (dir : Path) : (c.rebase dir).named = c.named.map fun p => p.collapse dir := by
  cases h : c.modulesRoot <;> simp [named, rebase, h, Function.comp_def]

theorem rebase_eq_self {c : Config} {dir : Path} (h : ∀ p ∈ c.named, p.collapse dir = p) : c.rebase dir = c := by
  obtain ⟨base, modulePath, modulesRoot, policies, exportFiles⟩ := c
  simp only [named, List.forall_mem_append, List.forall_mem_map] at h
  obtain ⟨⟨hpath, hroot⟩, hfiles⟩ := h
  have hpath : modulePath.map (fun p => p.collapse dir) = modulePath :=
    (List.map_congr_left hpath).trans (List.map_id modulePath)
  have hroot : modulesRoot.map (fun p => p.collapse dir) = modulesRoot := by
    cases modulesRoot with
    | none => rfl
    | some root => exact congrArg some (hroot root (List.mem_singleton_self root))
  have hfiles : exportFiles.map (fun e => { e with path := e.path.collapse dir }) = exportFiles := by
    refine (List.map_congr_left fun e he => ?_).trans (List.map_id exportFiles)
    show ExportFile.mk (e.path.collapse dir) e.targets = e
    rw [hfiles e he]
  simp only [rebase, hpath, hroot, hfiles]

theorem mem_named_layeredOver {c b : Config} {p : Path} (h : p ∈ (c.layeredOver b).named) :
    p ∈ c.named ∨ p ∈ b.named := by
  simp only [named, layeredOver, addPath_eq, addTo_eq, List.mem_append, List.mem_map, Option.mem_toList] at h ⊢
  rcases h with (hpath | hroot) | ⟨e, hfiles, rfl⟩
  · rcases mem_of_mem_foldl_addDistinct hpath with hpath | hpath
    · exact Or.inl (Or.inl (Or.inl hpath))
    · exact Or.inr (Or.inl (Or.inl hpath))
  · rcases Option.or_eq_some_iff.mp hroot with hroot | hroot
    · exact Or.inl (Or.inl (Or.inr hroot))
    · exact Or.inr (Or.inl (Or.inr hroot.2))
  · rcases mem_of_mem_foldl_addDistinct hfiles with hfiles | hfiles
    · exact Or.inl (Or.inr ⟨e, hfiles, rfl⟩)
    · exact Or.inr (Or.inr ⟨e, hfiles, rfl⟩)

variable {w : World} {file file' : Path} {layers : List Layer} {c ground : Config}

theorem flatten_of_mem_named {p : Path} (hground : ground.named = []) (h : p ∈ (stack w layers ground).named) :
    p.flatten = p := by
  induction layers with
  | nil =>
    have hnil : p ∈ ground.named := h
    rw [hground] at hnil
    cases hnil
  | cons l layers ih =>
    rcases mem_named_layeredOver h with h | h
    · rw [Layer.rebased, named_rebase] at h
      obtain ⟨written, -, rfl⟩ := List.mem_map.mp h
      exact Path.flatten_collapse written _
    · exact ih h

end Config

/-! ## Trees with more in them -/

namespace FileTree

variable {t t' : FileTree} {follow : Bool} {links : Nat} {here : Location} {xs : List String} {p : Path}

/-- All that stands in one tree stands in another. -/
def Includes (t t' : FileTree) : Prop := ∀ loc e, t.lookup? loc = some e → t'.lookup? loc = some e

theorem walk_of_includes (h : Includes t t') {loc : Location} {e : Entry}
    (hw : walk t follow links here xs = .ok (.present loc e)) :
    walk t' follow links here xs = .ok (.present loc e) := by
  fun_induction enter t links here xs with
  | case1 => rwa [walk_nil] at hw ⊢
  | case2 links here part rest hp ih =>
    rw [walk_silent hp] at hw ⊢
    exact ih hw
  | case3 links here rest hp ih =>
    rw [walk_up] at hw ⊢
    exact ih hw
  | case4 links here part rest hp hup hlong =>
    rw [walk_tooLong ⟨hp, hup⟩ hlong] at hw
    cases hw
  | case5 links here part rest hp hup hshort hl =>
    rw [walk_none ⟨hp, hup⟩ hshort hl] at hw
    split at hw <;> cases hw
  | case6 links here part rest hp hup hshort hl ih =>
    rw [walk_directory ⟨hp, hup⟩ hshort hl] at hw
    rw [walk_directory ⟨hp, hup⟩ hshort (h _ _ hl)]
    exact ih hw
  | case7 links here part rest hp hup hshort b hl =>
    rw [walk_file ⟨hp, hup⟩ hshort hl] at hw
    rwa [walk_file ⟨hp, hup⟩ hshort (h _ _ hl)]
  | case8 here part rest hp hup hshort target hl =>
    rw [walk_link_zero ⟨hp, hup⟩ hshort hl] at hw
    rwa [walk_link_zero ⟨hp, hup⟩ hshort (h _ _ hl)]
  | case9 here part rest hp hup hshort target hl links ih =>
    rw [walk_link_succ ⟨hp, hup⟩ hshort hl] at hw
    rw [walk_link_succ ⟨hp, hup⟩ hshort (h _ _ hl)]
    split at hw
    · next hentry => rwa [if_pos hentry]
    · next hentry =>
      rw [if_neg hentry]
      exact ih hw

theorem readText_of_includes (h : Includes t t') {text : String} (hread : t.readText here p = .ok text) :
    t'.readText here p = .ok text := by
  obtain ⟨b, hbytes, htext⟩ := bind_eq_ok.mp hread
  obtain ⟨loc, hl⟩ := readBytes_eq_ok.mp hbytes
  obtain ⟨u, hu, hw⟩ := bind_eq_ok.mp hl
  have hl' : locate t' here p = .ok (.present loc (.file b)) := bind_eq_ok.mpr ⟨u, hu, walk_of_includes h hw⟩
  exact bind_eq_ok.mpr ⟨b, readBytes_eq_ok.mpr ⟨loc, hl'⟩, htext⟩

theorem includes_of_writeText {text : String} (hnew : t.pathExists here p = false)
    (h : t.writeText here p text = .ok t') : Includes t t' := by
  obtain ⟨spot, place, hl, hs, rfl⟩ := writeBytes_eq_ok h
  cases spot with
  | present loc e =>
    unfold pathExists found? at hnew
    rw [hl] at hnew
    cases hnew
  | vacant parent name =>
    cases hs
    obtain ⟨u, hu, hw⟩ := bind_eq_ok.mp hl
    obtain ⟨hfree, -⟩ := walk_vacant hw
    intro loc e hloc
    -- nothing stood where the file is put
    have hne : loc ≠ parent ++ [name] := by
      rintro rfl
      rw [hfree] at hloc
      cases hloc
    rw [lookup?_put t _ _ _ (by simp), if_neg hne, hloc]

end FileTree

namespace Config

open FileTree (Includes)

variable {w : World} {file file' : Path} {layers : List Layer} {c ground : Config} {tree : FileTree}

theorem Written.of_includes (h : Includes w.tree tree) (hc : Written w file c) :
    Written { w with tree := tree } file c := by
  obtain ⟨text, htext, hread⟩ := hc
  exact ⟨text, FileTree.readText_of_includes h htext, hread⟩

theorem Chain.of_includes (h : Includes w.tree tree) (hc : Chain w file layers ground) :
    Chain { w with tree := tree } file layers ground := by
  induction hc with
  | alone hc hbase => exact .alone (hc.of_includes h) hbase
  | preset hc hbase hpreset => exact .preset (hc.of_includes h) hbase hpreset
  | extending hc hbase hpreset hrest ih => exact .extending (hc.of_includes h) hbase hpreset ih

/-! ## The stored configuration -/

theorem Chain.stored (h : Chain w file layers ground) (hincludes : Includes w.tree tree)
    (hparent : parentOf file' = parentOf file)
    (hwritten : Written { w with tree := tree } file' (stack w layers ground)) :
    ∃ l rest, layers = l :: rest ∧
      Chain { w with tree := tree } file' (⟨file', stack w layers ground⟩ :: rest) ground := by
  cases h with
  | alone h hbase => exact ⟨_, [], rfl, .alone hwritten hbase⟩
  | preset h hbase hpreset => exact ⟨_, [], rfl, .preset hwritten hbase hpreset⟩
  | @extending file c ground name rest h hbase hpreset hrest =>
    -- the base is looked for from the directory, which is the same
    have hpath : basePath name file' = basePath name file := by rw [basePath, basePath, hparent]
    refine ⟨_, rest, rfl, .extending hwritten hbase hpreset ?_⟩
    rw [hpath]
    exact hrest.of_includes hincludes

/-- **Storing what was loaded changes nothing.** If a loaded configuration names absolute paths only, and is stored
as a new file in the directory of the file that it was loaded from, the new file is loaded as just the same. -/
theorem load_stored (w : World) (file file' : Path) (c : Config) (tree : FileTree)
    (hload : load w (some file) = some (.ok c)) (habsolute : ∀ p ∈ c.named, p.isAbsolute = true)
    (hyaml : ofYaml? c.toYaml = some c) (hparent : parentOf file' = parentOf file)
    (hnew : w.pathExists file' = false) (hstore : w.tree.writeText w.here file' c.toYaml = .ok tree) :
    load { w with tree := tree } (some file') = some (.ok c) := by
  have hincludes : Includes w.tree tree := FileTree.includes_of_writeText hnew hstore
  have hwritten : Written { w with tree := tree } file' c := ⟨c.toYaml, FileTree.readText_of_writeText hstore, hyaml⟩
  obtain ⟨layers, ground, hlayers, rfl⟩ := layered_of_loadFile hload
  have hground : ground.named = [] := by rw [hlayers.ground_eq]; rfl
  have hrebase : ∀ dir, (stack w layers ground).rebase dir = stack w layers ground := by
    intro dir
    refine rebase_eq_self fun p hp => ?_
    rw [Path.collapse_of_isFull (Path.isFull_of_isAbsolute (habsolute p hp)), flatten_of_mem_named hground hp]
  rcases hlayers with hchain | ⟨-, rfl, rfl⟩
  · obtain ⟨l, rest, rfl, hstored⟩ := hchain.stored hincludes hparent hwritten
    refine (Layered.loadFile_eq (Or.inl hstored)).trans (congrArg (fun c => some (Except.ok c)) ?_)
    calc stack { w with tree := tree } (⟨file', stack w (l :: rest) ground⟩ :: rest) ground
      _ = ((stack w (l :: rest) ground).rebase _).layeredOver (stack w rest ground) := rfl
      _ = (stack w (l :: rest) ground).layeredOver (stack w rest ground) := by rw [hrebase]
      _ = stack w (l :: rest) ground := layeredOver_twice (l.rebased w) (stack w rest ground)
  · refine (Layered.loadFile_eq (Or.inl (.alone hwritten rfl))).trans (congrArg (fun c => some (Except.ok c)) ?_)
    exact (layeredOver_default _).trans (hrebase _)

/-- A directory and an exported file that the file and its base both name. -/
theorem load_stored_over_base :
    let ownText : String := "extends: sub/b.yaml\nmodule-path: [m]\nexport-files:\n- path: T.cmake\n  targets: [Own]\n"
    let baseText : String := "module-path: [../m, n]\nexport-files:\n- path: ../T.cmake\n"
    let tree : FileTree := { entries := [(["w"], .directory), (["w", "a.yaml"], .file ownText.toUTF8),
      (["w", "sub"], .directory), (["w", "sub", "b.yaml"], .file baseText.toUTF8)] }
    let w : World := { tree, cwd := ⟨"/w"⟩ }
    let c : Config := {
      base := some "sub/b.yaml"
      modulePath := [⟨"/w/m"⟩, ⟨"/w/sub/n"⟩]
      exportFiles := [⟨⟨"/w/T.cmake"⟩, ["Own"]⟩] }
    load w (some ⟨"a.yaml"⟩) = some (.ok c) ∧ ∃ after, w.tree.writeText w.here ⟨"c.yaml"⟩ c.toYaml = .ok after ∧
      load { w with tree := after } (some ⟨"c.yaml"⟩) = some (.ok c) := by
  intro ownText baseText tree w c
  let own : Config :=
    { base := some "sub/b.yaml", modulePath := [⟨"m"⟩], exportFiles := [⟨⟨"T.cmake"⟩, ["Own"]⟩] }
  let base : Config := { modulePath := [⟨"../m"⟩, ⟨"n"⟩], exportFiles := [⟨⟨"../T.cmake"⟩, []⟩] }
  have hown : Written w ⟨"a.yaml"⟩ own := ⟨ownText, by decide +kernel, by decide +kernel⟩
  have hbase : Written w (basePath "sub/b.yaml" ⟨"a.yaml"⟩) base := ⟨baseText, by decide +kernel, by decide +kernel⟩
  have hlayers : Layered w ⟨"a.yaml"⟩ [⟨⟨"a.yaml"⟩, own⟩, ⟨⟨"sub/b.yaml"⟩, base⟩] {} :=
    Or.inl (.extending hown rfl rfl (.alone hbase rfl))
  have hload : load w (some ⟨"a.yaml"⟩) = some (.ok c) := hlayers.loadFile_eq.trans (by decide +kernel)
  have hstored : ∃ after, w.tree.writeText w.here ⟨"c.yaml"⟩ c.toYaml = .ok after := by
    have hok : (w.tree.writeText w.here ⟨"c.yaml"⟩ c.toYaml).isOk = true := by decide +kernel
    cases hwrite : w.tree.writeText w.here ⟨"c.yaml"⟩ c.toYaml with
    | ok after => exact ⟨after, rfl⟩
    | error e => rw [hwrite] at hok; cases hok
  obtain ⟨after, hafter⟩ := hstored
  exact ⟨hload, after, hafter, load_stored w ⟨"a.yaml"⟩ ⟨"c.yaml"⟩ c after hload (by decide) (by decide +kernel) rfl
    (by decide +kernel) hafter⟩

end Config

end ScriptInclude
