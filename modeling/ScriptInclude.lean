import ScriptInclude.Host.Memory
import ScriptInclude.Main
import ScriptInclude.Proofs.Dictionary
import ScriptInclude.Proofs.PolicySettings
import ScriptInclude.Proofs.PolicyLayers
import ScriptInclude.Proofs.Effects
import ScriptInclude.Proofs.ArgumentErrors
import ScriptInclude.Proofs.ArgumentGrammar
import ScriptInclude.Proofs.MemoryOutcome
import ScriptInclude.Proofs.PathNames
import ScriptInclude.Proofs.Collapsing
import ScriptInclude.Proofs.JoinedPaths
import ScriptInclude.Proofs.Walking
import ScriptInclude.Proofs.CollapsedWalk
import ScriptInclude.Proofs.Bindings
import ScriptInclude.Proofs.DirectoryEntries
import ScriptInclude.Proofs.ModuleSearch
import ScriptInclude.Proofs.Sessions
import ScriptInclude.Proofs.FatalErrors
import ScriptInclude.Proofs.Endings
import ScriptInclude.Proofs.Writing
import ScriptInclude.Proofs.EqualPaths
import ScriptInclude.Proofs.Layering
import ScriptInclude.Proofs.Chains
import ScriptInclude.Proofs.EndlessChains
import ScriptInclude.Proofs.LayeredHosts
import ScriptInclude.Proofs.ChainLoading
import ScriptInclude.Proofs.Parents
import ScriptInclude.Proofs.WrittenFiles
import ScriptInclude.Proofs.JsonReading
import ScriptInclude.Proofs.JsonReports
import ScriptInclude.Proofs.Storing
import ScriptInclude.Proofs.TimeStamps
import ScriptInclude.Proofs.Modifiers
import ScriptInclude.Proofs.Regenerating
import ScriptInclude.Proofs.Lines
import ScriptInclude.Proofs.ImportFiles
import ScriptInclude.Proofs.RemadeDirectories
import ScriptInclude.Proofs.GeneratingTwice
import ScriptInclude.Proofs.MessageAccounting
import ScriptInclude.Proofs.CallTexts
import ScriptInclude.Proofs.MessageTexts
import ScriptInclude.Proofs.Colours
import ScriptInclude.Proofs.MessageEntries
import ScriptInclude.Proofs.CanonicalPaths
import ScriptInclude.Proofs.PolicyOptions
