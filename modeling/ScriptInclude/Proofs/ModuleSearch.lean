import ScriptInclude.Proofs.Bindings
import ScriptInclude.Proofs.Collapsing
import ScriptInclude.Proofs.Dictionary
import ScriptInclude.Proofs.DirectoryEntries

/-!
# Looking for modules

A module is looked for by trying its file name in one directory after another, and the path that is tried
is collapsed before it is given away. The list of all modules reads the directories instead. Both go by
what stands in the directories, and part where links stand there.
-/

namespace ScriptInclude

/-! ## First choices by two tests -/

section FirstChoice

variable {α β : Type} {test test' : α → Bool} {xs : List α} {x : α}

theorem find?_eq_of_imp (himp : ∀ y, test' y = true → test y = true) (h : xs.find? test = some x)
    (hx : test' x = true) : xs.find? test' = some x := by
  obtain ⟨-, before, after, hxs, hbefore⟩ := List.find?_eq_some_iff_append.mp h
  refine List.find?_eq_some_iff_append.mpr ⟨hx, before, after, hxs, fun y hy => ?_⟩
  have hnot : test y = false := by simpa using hbefore y hy
  cases hy' : test' y with
  | false => rfl
  | true => exact absurd (himp y hy') (by simp [hnot])

theorem find?_ne_of_eq_false (h : test x = false) {y : α} (hy : xs.find? test = some y) : y ≠ x := by
  rintro rfl
  simp [List.find?_some hy] at h

/-- Two tests choose alike if the first to pass one of them passes both; else their choices differ, and only
what is made of them can be equal. -/
theorem map_find?_eq_map_find?_iff {f : α → β} :
    (xs.find? test').map f = (xs.find? test).map f ↔
      ∀ x, xs.find? (fun y => test y || test' y) = some x → (test x = true ∧ test' x = true) ∨
        ∃ y z, xs.find? test = some y ∧ xs.find? test' = some z ∧ y ≠ z ∧ f y = f z := by
  cases hfirst : xs.find? (fun y => test y || test' y) with
  | none =>
    have hnone : ∀ x ∈ xs, test x = false ∧ test' x = false := by simpa using hfirst
    have htest : xs.find? test = none := List.find?_eq_none.mpr fun x hx => by simp [hnone x hx]
    have htest' : xs.find? test' = none := List.find?_eq_none.mpr fun x hx => by simp [hnone x hx]
    simp [htest, htest']
  | some x =>
    have hleft : test x = true → xs.find? test = some x := find?_eq_of_imp (fun y hy => by simp [hy]) hfirst
    have hright : test' x = true → xs.find? test' = some x := find?_eq_of_imp (fun y hy => by simp [hy]) hfirst
    have hor : test x = true ∨ test' x = true := by simpa using List.find?_some hfirst
    simp only [Option.some.injEq, forall_eq']
    cases hx : test x <;> cases hx' : test' x
    · simp [hx, hx'] at hor
    · -- the other test passes over `x`, to another or to none
      have hne : ∀ y, xs.find? test = some y → y ≠ x := fun y => find?_ne_of_eq_false hx
      rw [hright hx']
      cases hy : xs.find? test with
      | none => simp
      | some y =>
        have hyx : y ≠ x := hne y hy
        simp [hyx, eq_comm (a := f x)]
    · have hne : ∀ z, xs.find? test' = some z → z ≠ x := fun z => find?_ne_of_eq_false hx'
      rw [hleft hx]
      cases hz : xs.find? test' with
      | none => simp
      | some z =>
        have hxz : x ≠ z := (hne z hz).symm
        simp [hxz, eq_comm (a := f x)]
    · simp [hleft hx, hright hx']

end FirstChoice

namespace World

theorem isFile_iff {w : World} {p : Path} :
    w.isFile p = true ↔ ∃ loc b, w.tree.locate w.here p = .ok (.present loc (.file b)) := by
  unfold isFile FileTree.isFile FileTree.found?
  cases hl : w.tree.locate w.here p with
  | error e => simp
  | ok spot =>
    cases spot with
    | vacant parent name => simp
    | present loc e => cases e <;> simp

theorem readText_isOk {w : World} {p : Path} {loc : Location} {b : ByteArray}
    (h : w.tree.locate w.here p = .ok (.present loc (.file b))) :
    (w.readText p).isOk = (String.fromUTF8? b).isSome := by
  unfold readText FileTree.readText FileTree.readBytes
  rw [h]
  cases hb : String.fromUTF8? b <;> simp [bind, Except.bind, Except.isOk, Except.toBool, hb]

/-! ## Files that a directory lists -/

/-- A regular file stands at the path itself. -/
def isRegular (w : World) (p : Path) : Bool :=
  match w.tree.locateEntry w.here p with
  | .ok (.present _ (.file _)) => true
  | _ => false

theorem isRegular_iff {w : World} {p : Path} :
    w.isRegular p = true ↔ ∃ loc b, w.tree.locateEntry w.here p = .ok (.present loc (.file b)) := by
  unfold isRegular
  split
  · next loc b h => simp [h]
  · next h =>
    simp only [Bool.false_eq_true, false_iff]
    rintro ⟨loc, b, hl⟩
    exact h loc b hl

/-- The directory shows the file; `finds` asks for it by its path. -/
def lists (w : World) (file : String) (dir : Path) : Bool := (w.filesIn dir).contains file

def finds (w : World) (file : String) (dir : Path) : Bool := w.isFile (dir.join ⟨file⟩)

/-- A directory lists a file and has it found if the file stands there itself, and only then. -/
theorem lists_and_finds {w : World} {file : String} {dir : Path} (hfile : FileTree.IsEntryName file)
    (hslash : '/' ∉ file.toList) :
    (w.lists file dir = true ∧ w.finds file dir = true) ↔
      dir.isEmpty = false ∧ w.isRegular (dir.join ⟨file⟩) = true := by
  have hne : file ≠ "" := fun h => hfile.not_silent (h ▸ by decide)
  rw [lists, finds, List.contains_iff_mem, filesIn, FileTree.mem_filesIn, isFile_iff, isRegular_iff]
  constructor
  · rintro ⟨⟨hu, left, loc, henter, b, hb⟩, place, b', hfound⟩
    have hdir : dir.isEmpty = false := (FileTree.usable_eq_ok.mp hu).1
    obtain ⟨hujoin, left', loc', henter', hwalk⟩ := (FileTree.locate_join_eq_ok hdir hslash).mp hfound
    -- both are about the entry of one directory
    obtain ⟨rfl, rfl⟩ : left' = left ∧ loc' = loc := by simpa [henter] using henter'.symm
    have hshort : ¬ FileTree.maxName < file.utf8ByteSize := by
      intro hlong
      rw [FileTree.walk_tooLong hfile hlong] at hwalk
      cases hwalk
    have hregular : w.tree.walk false left' loc' [file] = .ok (.present (loc' ++ [file]) (.file b)) :=
      (FileTree.walk_name_eq_file hfile).mpr ⟨hshort, rfl, hb⟩
    exact ⟨hdir, loc' ++ [file], b,
      (FileTree.locateEntry_join_eq_ok hdir hslash hne).mpr ⟨hujoin, left', loc', henter, hregular⟩⟩
  · rintro ⟨hdir, place, b, hregular⟩
    obtain ⟨hujoin, left, loc, henter, hwalk⟩ := (FileTree.locateEntry_join_eq_ok hdir hslash hne).mp hregular
    obtain ⟨hshort, rfl, hb⟩ := (FileTree.walk_name_eq_file hfile).mp hwalk
    have hfound : w.tree.walk true left loc [file] = .ok (.present (loc ++ [file]) (.file b)) :=
      (FileTree.walk_file hfile hshort hb).trans (if_pos rfl)
    exact ⟨⟨FileTree.usable_of_join hdir hslash hujoin, left, loc, henter, b, hb⟩, loc ++ [file], b,
      (FileTree.locate_join_eq_ok hdir hslash).mpr ⟨hujoin, left, loc, henter, hfound⟩⟩

end World

namespace Session

/-! ## The modules of a directory -/

def moduleName? (file : String) : Option String :=
  if scriptSuffix.toList.isSuffixOf file.toList then
    some (String.ofList (file.toList.take (file.length - scriptSuffix.length)))
  else none

theorem moduleName?_eq_some {file name : String} : moduleName? file = some name ↔ file = name ++ scriptSuffix := by
  unfold moduleName?
  rw [Option.ite_none_right_eq_some, List.isSuffixOf_iff_suffix]
  constructor
  · rintro ⟨⟨stem, hstem⟩, hname⟩
    rw [← Option.some.inj hname, ← String.toList_inj, String.toList_append, String.toList_ofList, ← hstem]
    simp [← String.length_toList, ← hstem]
  · rintro rfl
    simp [← String.length_toList]

theorem modulesIn_eq (w : World) (dir : Path) :
    modulesIn w dir = (w.filesIn dir).filterMap fun file => (moduleName? file).map (·, dir.join ⟨file⟩) := by
  unfold modulesIn moduleName?
  congr 1
  funext file
  split <;> rfl

theorem lookup_modulesIn (w : World) (dir : Path) (name : String) :
    (modulesIn w dir).lookup name =
      if w.lists (name ++ scriptSuffix) dir then some (dir.join ⟨name ++ scriptSuffix⟩) else none := by
  rw [modulesIn_eq, World.lists]
  induction w.filesIn dir with
  | nil => rfl
  | cons file files ih =>
    cases hname : moduleName? file with
    | none =>
      have hne : name ++ scriptSuffix ≠ file := fun h => by simp [moduleName?_eq_some.mpr h.symm] at hname
      simp [hname, ih, hne]
    | some n =>
      obtain rfl := moduleName?_eq_some.mp hname
      by_cases h : name = n
      · simp [hname, h]
      · have hne : name ++ scriptSuffix ≠ n ++ scriptSuffix := fun h' => h (by simpa using h')
        simp [hname, Dictionary.lookup_cons_eq, ih, h, hne]

/-! ## The first directory -/

theorem lookup_flatMap_modulesIn (w : World) (name : String) (dirs : List Path) :
    (dirs.flatMap (modulesIn w)).lookup name =
      (dirs.find? (w.lists (name ++ scriptSuffix))).map fun dir => dir.join ⟨name ++ scriptSuffix⟩ := by
  induction dirs with
  | nil => rfl
  | cons dir dirs ih =>
    rw [List.flatMap_cons, List.lookup_append, lookup_modulesIn, ih]
    cases h : w.lists (name ++ scriptSuffix) dir <;> simp [h]

theorem availableModules_get? (s : Session) (name : String) :
    s.availableModules.get? name =
      (s.interpreter.moduleDirs.find? (s.world.lists (name ++ scriptSuffix))).map fun dir =>
        dir.join ⟨name ++ scriptSuffix⟩ := by
  have hempty : (Dictionary.empty : Dictionary Path).get? name = none := rfl
  rw [availableModules, Dictionary.get?_foldl_insertNew, hempty, Option.none_or, lookup_flatMap_modulesIn]

theorem findModule?_eq (s : Session) (file : String) :
    s.findModule? file =
      (s.interpreter.moduleDirs.find? (s.world.finds file)).map fun dir => (dir.join ⟨file⟩).collapse s.world.cwd := by
  rw [findModule?, candidates, List.find?_map, Option.map_map]
  rfl

theorem isEntryName_module (name : String) : FileTree.IsEntryName (name ++ scriptSuffix) := by
  have hlength : scriptSuffix.length ≤ (name ++ scriptSuffix).length := by simp
  have hne : ∀ s : String, s.length < scriptSuffix.length → name ++ scriptSuffix ≠ s := by
    rintro s hs rfl
    omega
  constructor
  · simp [FileTree.isSilent, hne "" (by decide), hne "." (by decide)]
  · exact hne ".." (by decide)

/-! ## Listing and looking up -/

/-- **The list of modules.** It has a name with the path that looking for its file finds, exactly if in the first
directory that has the file for either of the two a regular file stands there itself, or the two take different
directories whose paths collapse to one. -/
theorem findModule?_eq_listed_iff (s : Session) (name : String) (hname : '/' ∉ name.toList) :
    s.findModule? (name ++ scriptSuffix) =
        (s.availableModules.get? name).map (fun p => p.collapse s.world.cwd) ↔
      ∀ dir, s.interpreter.moduleDirs.find? (fun d =>
          s.world.lists (name ++ scriptSuffix) d || s.world.finds (name ++ scriptSuffix) d) = some dir →
        (dir.isEmpty = false ∧ s.world.isRegular (dir.join ⟨name ++ scriptSuffix⟩) = true) ∨
          ∃ listed found, s.interpreter.moduleDirs.find? (s.world.lists (name ++ scriptSuffix)) = some listed ∧
            s.interpreter.moduleDirs.find? (s.world.finds (name ++ scriptSuffix)) = some found ∧ listed ≠ found ∧
              (listed.join ⟨name ++ scriptSuffix⟩).collapse s.world.cwd =
                (found.join ⟨name ++ scriptSuffix⟩).collapse s.world.cwd := by
  have hslash : '/' ∉ (name ++ scriptSuffix).toList := by
    rw [String.toList_append, List.mem_append]
    exact not_or.mpr ⟨hname, by decide⟩
  simp only [← World.lists_and_finds (isEntryName_module name) hslash]
  rw [findModule?_eq, availableModules_get?, Option.map_map]
  exact map_find?_eq_map_find?_iff

theorem findModule?_eq_listed_before_link :
    let tree : FileTree := { entries := [(["a"], .directory), (["a", "Foo.cmake"], .file .empty),
      (["b"], .directory), (["b", "Foo.cmake"], .link "../a/Foo.cmake")] }
    let s : Session := ⟨{ moduleDirs := [⟨"/a"⟩, ⟨"/b"⟩] }, { tree }⟩
    '/' ∉ "Foo".toList ∧ s.findModule? ("Foo" ++ scriptSuffix) = some ⟨"/a/Foo.cmake"⟩ ∧
      (s.availableModules.get? "Foo").map (fun p => p.collapse s.world.cwd) = some ⟨"/a/Foo.cmake"⟩ := by
  intro tree s
  have hname : '/' ∉ "Foo".toList := by decide
  have hfound : s.findModule? ("Foo" ++ scriptSuffix) = some ⟨"/a/Foo.cmake"⟩ := by decide +kernel
  have hagree := (findModule?_eq_listed_iff s "Foo" hname).mpr fun dir hdir => by
    obtain rfl : ⟨"/a"⟩ = dir := Option.some.inj (Eq.trans (by decide +kernel) hdir)
    exact Or.inl (by decide +kernel)
  exact ⟨hname, hfound, hagree.symm.trans hfound⟩

/-- A module that only a link stands for is found, and it is not in the list. -/
theorem findModule?_link_not_listed :
    let tree : FileTree := { entries := [(["real.cmake"], .file .empty), (["m"], .directory),
      (["m", "Foo.cmake"], .link "../real.cmake")] }
    let s : Session := ⟨{ moduleDirs := [⟨"/m"⟩] }, { tree }⟩
    '/' ∉ "Foo".toList ∧ s.findModule? ("Foo" ++ scriptSuffix) = some ⟨"/m/Foo.cmake"⟩ ∧
      s.availableModules.get? "Foo" = none := by
  decide +kernel

/-! ## What a module that is found names -/

theorem isAbsolute_of_mem_candidates {s : Session} {fileName : String} {p : Path}
    (hdirs : ∀ dir ∈ s.interpreter.moduleDirs, dir.isAbsolute = true) (hp : p ∈ s.candidates fileName) :
    p.isAbsolute = true := by
  obtain ⟨dir, hdir, rfl⟩ := List.mem_map.mp hp
  exact Path.isAbsolute_join (hdirs dir hdir) ⟨fileName⟩

/-- **A module that is found.** The search has found a file, and gives the collapsed path away. That path names
the same file, and the file is loaded if it is text, unless a `..` leads back out of a link. -/
theorem findModule?_names_file (s : Session) (fileName : String) (p : Path)
    (hdirs : ∀ dir ∈ s.interpreter.moduleDirs, dir.isAbsolute = true) (h : s.findModule? fileName = some p) :
    ∃ tried loc content, (s.candidates fileName).find? s.world.isFile = some tried ∧ p = tried.flatten ∧
      s.world.tree.locate s.world.here tried = .ok (.present loc (.file content)) ∧
      (s.world.LeavesNoLink tried →
        s.world.tree.locate s.world.here p = .ok (.present loc (.file content)) ∧
          ∀ noPolicyScope, (Host.loadFile p noPolicyScope s).1 = (String.fromUTF8? content).isSome) := by
  obtain ⟨tried, htried, rfl⟩ := Option.map_eq_some_iff.mp h
  have habs : tried.isAbsolute = true := isAbsolute_of_mem_candidates hdirs (List.mem_of_find?_eq_some htried)
  have hflat : tried.collapse s.world.cwd = tried.flatten :=
    Path.collapse_of_isFull (Path.isFull_of_isAbsolute habs) s.world.cwd
  obtain ⟨loc, content, hloc⟩ := World.isFile_iff.mp (List.find?_some htried)
  refine ⟨tried, loc, content, htried, hflat, hloc, fun hlinks => ?_⟩
  have hcollapsed : s.world.tree.locate s.world.here (tried.collapse s.world.cwd) =
      .ok (.present loc (.file content)) := by
    rw [hflat]
    exact World.locate_flatten habs hlinks hloc
  refine ⟨hcollapsed, fun noPolicyScope => ?_⟩
  rw [loadFile_fst, World.readText_isOk hcollapsed]

theorem findModule?_names_file_under_link :
    let tree : FileTree := { entries := [(["store"], .directory), (["store", "sub"], .directory),
      (["store", "Foo.cmake"], .file .empty), (["lib"], .link "store")] }
    let s : Session := ⟨{ moduleDirs := [⟨"/lib"⟩] }, { tree }⟩
    (∀ dir ∈ s.interpreter.moduleDirs, dir.isAbsolute = true) ∧
      s.findModule? "sub/../Foo.cmake" = some ⟨"/lib/Foo.cmake"⟩ ∧
      s.world.LeavesNoLink ⟨"/lib/sub/../Foo.cmake"⟩ ∧
      s.world.tree.locate s.world.here ⟨"/lib/Foo.cmake"⟩ =
        .ok (.present ["store", "Foo.cmake"] (.file .empty)) ∧
      (Host.loadFile ⟨"/lib/Foo.cmake"⟩ false s).1 = true := by
  intro tree s
  have hdirs : ∀ dir ∈ s.interpreter.moduleDirs, dir.isAbsolute = true := by decide
  have hfound : s.findModule? "sub/../Foo.cmake" = some ⟨"/lib/Foo.cmake"⟩ := by decide +kernel
  have hlinks : s.world.LeavesNoLink ⟨"/lib/sub/../Foo.cmake"⟩ := by decide +kernel
  have hfirst : (s.candidates "sub/../Foo.cmake").find? s.world.isFile = some ⟨"/lib/sub/../Foo.cmake"⟩ := by
    decide +kernel
  have hplace : s.world.tree.locate s.world.here ⟨"/lib/sub/../Foo.cmake"⟩ =
      .ok (.present ["store", "Foo.cmake"] (.file .empty)) := by decide +kernel
  obtain ⟨tried, loc, content, htried, -, hloc, hnames⟩ :=
    findModule?_names_file s "sub/../Foo.cmake" ⟨"/lib/Foo.cmake"⟩ hdirs hfound
  cases Option.some.inj (hfirst.symm.trans htried)
  cases hplace.symm.trans hloc
  obtain ⟨hcollapsed, hload⟩ := hnames hlinks
  exact ⟨hdirs, hfound, hlinks, hcollapsed, (hload false).trans (by decide +kernel)⟩

/-- A `..` goes up from where a link has led, and the collapsed path goes up from the link. -/
theorem findModule?_names_nothing :
    let tree : FileTree := { entries := [(["o"], .directory), (["o", "x.cmake"], .file .empty),
      (["o", "s"], .directory), (["m"], .directory), (["m", "l"], .link "../o/s")] }
    let s : Session := ⟨{ moduleDirs := [⟨"/m"⟩] }, { tree }⟩
    (∀ dir ∈ s.interpreter.moduleDirs, dir.isAbsolute = true ∧ dir.flatten = dir) ∧
      s.findModule? "l/../x.cmake" = some ⟨"/m/x.cmake"⟩ ∧ s.world.pathExists ⟨"/m/x.cmake"⟩ = false ∧
      (Host.loadFile ⟨"/m/x.cmake"⟩ false s).1 = false := by
  decide +kernel

end Session

end ScriptInclude
