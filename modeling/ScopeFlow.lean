import ScopeFlow.Main
import ScopeFlow.Proofs.ClassNames
import ScopeFlow.Proofs.Closures
import ScopeFlow.Proofs.DecidedTests
import ScopeFlow.Proofs.ExportLists
import ScopeFlow.Proofs.FinallySuites
import ScopeFlow.Proofs.LoadTrees
import ScopeFlow.Proofs.Lookups
import ScopeFlow.Proofs.NeverConditions
import ScopeFlow.Proofs.Redeclaring
import ScopeFlow.Proofs.Renumbering
import ScopeFlow.Proofs.Resolutions
import ScopeFlow.Proofs.Rules
import ScopeFlow.Report.Value
import ScopeFlow.Proofs.Preorders
