import ScriptInclude.Proofs.CollapsedWalk
import ScriptInclude.Proofs.JoinedPaths

/-!
# Entries of a directory

A directory shows the regular files that stand in it; a path that is the directory's with a name at its
end asks for one entry. The two look at the same place, but the path may be too long to be used, and it
follows a link that stands there.
-/

namespace ScriptInclude

/-! ## A name at the end of a path -/

namespace Path

variable {dir : Path} {file : String}

theorem parts_of_not_mem (h : '/' ∉ file.toList) : (Path.mk file).parts = [file.toList] := by
  have hpieces : Text.pieces '/' (['/'].intercalate [file.toList]) = [file.toList] :=
    Text.pieces_intercalate '/' (by simpa using h) (by simp)
  simpa [parts, chars] using hpieces

theorem isAbsolute_of_not_mem (h : '/' ∉ file.toList) : (Path.mk file).isAbsolute = false := by
  unfold isAbsolute chars
  cases hcs : file.toList with
  | nil => rfl
  | cons c cs =>
    have hc : c ≠ '/' := fun hc => h (by simp [hcs, hc])
    simp [hc]

end Path

namespace FileTree

/-! ## What a directory shows -/

theorem lookup_eq_some {loc : Location} {e : Entry} :
    ∀ {es : List (Location × Entry)}, (es.map Prod.fst).Nodup → (es.lookup loc = some e ↔ (loc, e) ∈ es)
  | [], _ => by simp
  | (place, old) :: es, h => by
    obtain ⟨hnot, hes⟩ := List.nodup_cons.mp h
    by_cases hplace : loc = place
    · subst hplace
      have hold : (loc, e) ∉ es := fun hm => hnot (List.mem_map.mpr ⟨(loc, e), hm, rfl⟩)
      simp [hold, eq_comm]
    · simp [List.lookup_cons, beq_false_of_ne hplace, hplace, lookup_eq_some hes]

theorem mem_fileNames {t : FileTree} {loc : Location} {name : String} :
    name ∈ t.fileNames loc ↔ ∃ b, t.lookup? (loc ++ [name]) = some (.file b) := by
  have hne : loc ++ [name] ≠ [] := by simp
  have hplace : ∀ place : Location, place = loc ++ [name] ↔ place.dropLast = loc ∧ place.getLast? = some name := by
    intro place
    rcases List.eq_nil_or_concat place with rfl | ⟨init, last, rfl⟩
    · simp
    · rw [List.concat_eq_append, List.dropLast_concat, List.getLast?_concat, Option.some_inj]
      exact List.append_singleton_inj
  simp only [lookup?, if_neg hne, lookup_eq_some t.distinct]
  constructor
  · intro h
    obtain ⟨⟨place, e⟩, hmem, hname⟩ := List.mem_filterMap.mp h
    cases e with
    | file b =>
      have hdir : place.dropLast = loc := by
        by_contra hno
        simp [hno] at hname
      have hlast : place.getLast? = some name := by simpa [hdir] using hname
      exact ⟨b, (hplace place).mpr ⟨hdir, hlast⟩ ▸ hmem⟩
    | directory | link => cases hname
  · rintro ⟨b, hmem⟩
    refine List.mem_filterMap.mpr ⟨(loc ++ [name], .file b), hmem, ?_⟩
    simp

theorem mem_filesIn {t : FileTree} {here : Location} {dir : Path} {name : String} :
    name ∈ t.filesIn here dir ↔ usable dir = .ok () ∧ ∃ left loc,
      enter t maxLinks (start dir here) (steps dir) = .ok (left, loc) ∧
        ∃ b, t.lookup? (loc ++ [name]) = some (.file b) := by
  have hlocate : ∀ loc, locate t here dir = .ok (.present loc .directory) ↔
      usable dir = .ok () ∧ ∃ left, enter t maxLinks (start dir here) (steps dir) = .ok (left, loc) := by
    intro loc
    rw [← walk_eq_directory_iff, locate]
    cases usable dir <;> simp [bind, Except.bind]
  have hfiles : name ∈ t.filesIn here dir ↔
      ∃ loc, locate t here dir = .ok (.present loc .directory) ∧ name ∈ t.fileNames loc := by
    unfold filesIn
    split
    · next loc h => simp [h]
    · next h =>
      simp only [List.not_mem_nil, false_iff]
      rintro ⟨loc, hloc, -⟩
      exact h loc hloc
  simp only [hfiles, hlocate, mem_fileNames]
  constructor
  · rintro ⟨loc, ⟨hu, left, he⟩, hb⟩
    exact ⟨hu, left, loc, he, hb⟩
  · rintro ⟨hu, left, loc, he, hb⟩
    exact ⟨loc, ⟨hu, left, he⟩, hb⟩

/-! ## Where the path of an entry leads -/

variable {t : FileTree} {here : Location} {dir : Path} {file : String}

theorem steps_join (hdir : dir.isEmpty = false) (h : '/' ∉ file.toList) :
    ∃ before, steps (dir.join ⟨file⟩) = before ++ [file] ∧
      ∀ links here, enter t links here (steps dir) = enter t links here before := by
  obtain ⟨before, -, hjoin, hparts⟩ := Path.parts_join hdir (Path.isAbsolute_of_not_mem h)
  rw [Path.parts_of_not_mem h] at hjoin
  refine ⟨before.map String.ofList, by simp [steps, hjoin], ?_⟩
  intro links here
  rcases hparts with hparts | hparts
  · rw [steps, hparts]
  · -- an empty part at the end leads nowhere else
    have hsilent : ∀ links here, enter t links here [""] = .ok (links, here) := by
      intro links here
      rw [enter_silent (by decide), enter_nil]
    have hsteps : steps dir = before.map String.ofList ++ [""] := by rw [steps, hparts, List.map_append]; rfl
    rw [hsteps, enter_append]
    simp only [hsilent]
    cases enter t links here (before.map String.ofList) <;> rfl

theorem start_join (hdir : dir.isEmpty = false) (h : '/' ∉ file.toList) :
    start (dir.join ⟨file⟩) here = start dir here := by
  rw [start, Path.isAbsolute_join_of_relative hdir (Path.isAbsolute_of_not_mem h), start]

theorem locate_join_eq_ok (hdir : dir.isEmpty = false) (h : '/' ∉ file.toList) {spot : Spot} :
    locate t here (dir.join ⟨file⟩) = .ok spot ↔ usable (dir.join ⟨file⟩) = .ok () ∧ ∃ left loc,
      enter t maxLinks (start dir here) (steps dir) = .ok (left, loc) ∧ walk t true left loc [file] = .ok spot := by
  obtain ⟨before, hsteps, henter⟩ := steps_join (t := t) hdir h
  rw [locate, start_join hdir h, hsteps, henter, ← walk_append_eq_ok (List.cons_ne_nil file [])]
  cases usable (dir.join ⟨file⟩) <;> simp [bind, Except.bind]

theorem locateEntry_join_eq_ok (hdir : dir.isEmpty = false) (h : '/' ∉ file.toList) (hne : file ≠ "") {spot : Spot} :
    locateEntry t here (dir.join ⟨file⟩) = .ok spot ↔ usable (dir.join ⟨file⟩) = .ok () ∧ ∃ left loc,
      enter t maxLinks (start dir here) (steps dir) = .ok (left, loc) ∧ walk t false left loc [file] = .ok spot := by
  obtain ⟨before, hsteps, henter⟩ := steps_join (t := t) hdir h
  rw [locateEntry_of_steps hsteps hne, start_join hdir h, henter, ← walk_append_eq_ok (List.cons_ne_nil file [])]
  cases usable (dir.join ⟨file⟩) <;> simp [Except.bind]

theorem usable_of_join (hdir : dir.isEmpty = false) (h : '/' ∉ file.toList)
    (hu : usable (dir.join ⟨file⟩) = .ok ()) : usable dir = .ok () := by
  obtain ⟨-, hzero, hshort⟩ := usable_eq_ok.mp hu
  have htext := Path.text_join hdir (Path.isAbsolute_of_not_mem h)
  rw [Path.chars, htext, String.toList_append] at hzero
  rw [htext, String.utf8ByteSize_append] at hshort
  exact usable_eq_ok.mpr ⟨hdir, fun hm => hzero (List.mem_append_left _ hm), by omega⟩

end FileTree

end ScriptInclude
