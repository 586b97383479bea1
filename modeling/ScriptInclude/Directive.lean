import ScriptInclude.ExportGate
import ScriptInclude.Options
import ScriptInclude.Target

/-!
# The directive

One evaluation of `include(...)`. The target is resolved once, and the path found is the one that is
checked, loaded and bound to the result variable. A file that could not be read is an error unless it is
optional or a fatal error is on record already.
-/

namespace ScriptInclude

structure Context where
  /-- Relative targets are taken from here. -/
  sourceDir : Path
  /-- A fatal error was reported before the call. -/
  fatalReported : Bool := false

inductive Outcome where
  | ignored
  | loaded (path : Path)
  | notLoaded
  deriving DecidableEq

abbrev Result := Except Failure Outcome

namespace Directive

def notFoundValue : String := "NOTFOUND"

def emptyTarget : Message := ⟨.authorWarning, "include() given empty file name (ignored)."⟩

variable {σ : Type} [Host σ]

def contextOf (sourceDir : Path) (host : σ) : Context := ⟨sourceDir, Host.fatalReported host⟩

def bind (binding? : Option String) (loaded : Option Path) (host : σ) : σ :=
  match binding? with
  | none => host
  | some name => Host.define name ((loaded.map Path.text).getD notFoundValue) host

def load (ctx : Context) (o : Options) (path : Path) (host : σ) : Result × σ :=
  match Host.loadFile path o.noPolicyScope host with
  | (true, host) => (.ok (.loaded path), bind o.resultVariable (some path) host)
  | (false, host) =>
    let host := bind o.resultVariable none host
    if o.optional || ctx.fatalReported || Host.fatalReported host then (.ok .notLoaded, host)
    else (.error (.fileNotFound o.target), host)

def loadIfPresent (ctx : Context) (o : Options) (path : Path) (host : σ) : Result × σ :=
  if o.optional && !Host.fileExists host path then (.ok .notLoaded, bind o.resultVariable none host)
  else load ctx o path host

def run (ctx : Context) (o : Options) (host : σ) : Result × σ :=
  if o.target = "" then (.ok .ignored, Host.report emptyTarget host)
  else
    let path := (Target.resolve host o.target ctx.sourceDir).path
    match ExportGate.check path host with
    | (.error e, host) => (.error e, host)
    | (.ok (), host) => loadIfPresent ctx o path host

def evaluate (ctx : Context) (args : List String) (host : σ) : Result × σ :=
  match Options.parse args with
  | .error e => (.error e, host)
  | .ok o => run ctx o host

end Directive

end ScriptInclude
