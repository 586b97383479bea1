import ScriptInclude.Proofs.Effects

/-!
# The outcome of a call on a host in memory

How a call ends can be told from the tables before it. The gate may add the file that is asked for, and
loading the file may put a fatal error on record; nothing else that happens on the way matters.
-/

namespace ScriptInclude

namespace Memory

/-! ## What an effect changes -/

@[simp]
theorem perform_generate (p : Path) (m : Memory) : (Call.generate p).perform m = m.generate p := rfl

@[simp]
theorem perform_load (p : Path) (noPolicyScope : Bool) (m : Memory) :
    (Call.load p noPolicyScope).perform m = (m.loadFile p noPolicyScope).2 := rfl

@[simp]
theorem perform_define (name value : String) (m : Memory) : (Call.define name value).perform m = m.define name value :=
  rfl

@[simp]
theorem perform_report (message : Message) (m : Memory) : (Call.report message).perform m = m.report message := rfl

@[simp]
theorem fileAt?_record (c : Call) (m : Memory) (p : Path) : (m.record c).fileAt? p = m.fileAt? p := rfl

@[simp]
theorem fatal_record (c : Call) (m : Memory) : (m.record c).fatal = m.fatal := rfl

@[simp]
theorem fileAt?_report (message : Message) (m : Memory) (p : Path) : (m.report message).fileAt? p = m.fileAt? p := rfl

@[simp]
theorem fatal_report (message : Message) (m : Memory) : (m.report message).fatal = (m.fatal || message.isFatal) := rfl

theorem fatal_foldl_report (messages : List Message) (m : Memory) :
    (messages.foldl (fun m message => m.report message) m).fatal = (m.fatal || messages.any Message.isFatal) := by
  induction messages generalizing m with
  | nil => simp
  | cons message messages ih => rw [List.foldl_cons, ih, fatal_report, List.any_cons, Bool.or_assoc]

@[simp]
theorem fatal_define (name value : String) (m : Memory) : (m.define name value).fatal = m.fatal := rfl

theorem fileAt?_addFile (f : MemoryFile) (m : Memory) (p : Path) :
    (m.addFile f).fileAt? p = (m.fileAt? p).or (if f.path.Same p then some f else none) := by
  by_cases h : f.path.Same p <;> simp [fileAt?, addFile, h]

@[simp]
theorem fatal_generate (p : Path) (m : Memory) : (m.generate p).fatal = m.fatal := by
  unfold generate
  dsimp only
  split <;> rfl

theorem fileAt?_generate (p : Path) (m : Memory) :
    (m.generate p).fileAt? p = (m.fileAt? p).or (some { path := p }) := by
  unfold generate
  cases h : m.fileAt? p with
  | some f => simp [h]
  | none => simp [h, fileAt?_addFile, Path.Same.rfl]

theorem loadFile_fst (p : Path) (noPolicyScope : Bool) (m : Memory) :
    (m.loadFile p noPolicyScope).1 = (m.fileAt? p).any MemoryFile.readable := by
  unfold loadFile
  cases h : m.fileAt? p <;> simp [h]

theorem fatal_loadFile (p : Path) (noPolicyScope : Bool) (m : Memory) :
    (m.loadFile p noPolicyScope).2.fatal =
      (m.fatal || (m.fileAt? p).any fun f => f.reports.any Message.isFatal) := by
  unfold loadFile
  cases h : m.fileAt? p <;> simp [h, fatal_foldl_report]

/-! ## The file that a load finds -/

/-- The file at `p` after the gate: the one that is there, or a fresh one if an `export()` step generates it. -/
def fileAfterGate? (m : Memory) (p : Path) : Option MemoryFile :=
  (m.fileAt? p).or (if Host.isExported m p then some { path := p } else none)

theorem fileAt?_gate (m : Memory) (p : Path) :
    (replay (ExportGate.calls p m) m).fileAt? p = m.fileAfterGate? p := by
  unfold ExportGate.calls fileAfterGate?
  by_cases h : Host.isExported m p = true
  · cases Host.policyStatus m .cmp0024 <;> simp [h, ExportGate.callsUnder, fileAt?_generate]
  · simp [h]

theorem fatal_gate {m : Memory} {p : Path} (h : ¬ ExportGate.Refuses p m) :
    (replay (ExportGate.calls p m) m).fatal = m.fatal := by
  unfold ExportGate.calls
  by_cases hexp : Host.isExported m p = true
  · cases hs : Host.policyStatus m .cmp0024 with
    | old => simp [hexp, ExportGate.callsUnder]
    | warn => simp [hexp, ExportGate.callsUnder, Message.isFatal, Level.isFatal]
    | _ => exact absurd ⟨hexp, by simp [hs]⟩ h
  · simp [hexp]

/-! ## The outcome -/

theorem loaded?_eq (o : Options) (p : Path) (m : Memory) :
    Directive.loaded? o p m = if (m.fileAt? p).any MemoryFile.readable then some p else none := by
  have hexists : Host.fileExists m p = (m.fileAt? p).isSome := rfl
  have hread : (Host.loadFile p o.noPolicyScope m).1 = (m.fileAt? p).any MemoryFile.readable := loadFile_fst _ _ m
  unfold Directive.loaded?
  rw [hexists, hread]
  cases m.fileAt? p <;> simp

theorem fatal_bindCalls (o : Options) (loaded : Option Path) (m : Memory) :
    (replay (Directive.bindCalls o loaded) m).fatal = m.fatal := by
  unfold Directive.bindCalls
  cases o.resultVariable <;> simp

/-- Only what the file reports while it is loaded can add a fatal error. -/
theorem fatal_fileCalls (o : Options) (p : Path) (m : Memory) :
    (replay (Directive.fileCalls o p m) m).fatal =
      (m.fatal || (m.fileAt? p).any fun f => f.reports.any Message.isFatal) := by
  have hexists : Host.fileExists m p = (m.fileAt? p).isSome := rfl
  unfold Directive.fileCalls Directive.loadCalls
  rw [replay_append, fatal_bindCalls, hexists]
  split
  · next h =>
    have hnone : m.fileAt? p = none := by simpa using h.2
    simp [hnone]
  · simp [fatal_loadFile]

/-- **The outcome by the state before the call.** A refused file is refused whatever the modifiers. Else the file
decides that the load finds; one that is absent or cannot be read is forgiven where it is optional, and where
a fatal error is on record or is reported by the file. -/
theorem run_outcome (m : Memory) (ctx : Context) (o : Options) (ho : o.target ≠ "") :
    let p := (Target.resolve m o.target ctx.sourceDir).path
    let file? := m.fileAfterGate? p
    (Directive.run ctx o m).1 =
      if ExportGate.Refuses p m then .error (.exportFilePolicy p)
      else if file?.any MemoryFile.readable = true then .ok (.loaded p)
      else if o.optional = true ∨ ctx.fatalReported = true ∨ m.fatal = true ∨
          (file?.any fun f => f.reports.any Message.isFatal) = true then .ok .notLoaded
      else .error (.fileNotFound o.target) := by
  dsimp only
  generalize hpath : (Target.resolve m o.target ctx.sourceDir).path = p
  by_cases h : ExportGate.Refuses p m
  · rw [Directive.run_of_refuses ctx ho hpath h, if_pos h]
  · have hfatal : ∀ m' : Memory, Host.fatalReported m' = m'.fatal := fun _ => rfl
    rw [Directive.run_of_not_refuses ctx ho hpath h, if_neg h]
    simp only [Directive.ending, loaded?_eq, hfatal, fatal_fileCalls, fileAt?_gate, fatal_gate h, Bool.or_eq_true]
    by_cases hread : (m.fileAfterGate? p).any MemoryFile.readable = true
    · rw [if_pos hread, if_pos hread]
    · rw [if_neg hread, if_neg hread]

/-- A file whose loading is a fatal error is not said to be missing. -/
theorem run_outcome_fatal_file :
    let broken : MemoryFile := { path := ⟨"/src/a.cmake"⟩, readable := false, reports := [⟨.fatalError, "no"⟩] }
    let m : Memory := { files := [broken] }
    let ctx : Context := { sourceDir := ⟨"/src"⟩ }
    "a.cmake" ≠ "" ∧ (Directive.run ctx { target := "a.cmake" } m).1 = .ok .notLoaded := by
  intro broken m ctx
  have hne : "a.cmake" ≠ "" := by decide
  refine ⟨hne, (run_outcome m ctx { target := "a.cmake" } hne).trans ?_⟩
  rw [if_neg (by decide), if_neg (by decide), if_pos (by decide)]

end Memory

end ScriptInclude
