import QScope.Main
import QScope.Proofs.Tiling
import QScope.Proofs.LineSplitting
import QScope.Proofs.StatementIndependence
import QScope.Proofs.Renaming
import QScope.Proofs.StatementSeams
import QScope.Proofs.LambdaEncapsulation
import QScope.Proofs.DynamicScoping
import QScope.Proofs.UsageFindings
import QScope.Proofs.Navigation
import QScope.Proofs.LambdaNamespaces
import QScope.Proofs.Completions
import QScope.Proofs.ScanCompletion
import QScope.Proofs.OutlineWalks
import QScope.Proofs.RulePasses
import QScope.Proofs.ServerRuns
import QScope.Proofs.TokenImages
import QScope.Proofs.FileSnapshots
import QScope.Proofs.LintVerdicts
import QScope.Proofs.ColumnContexts
import QScope.Proofs.CursorLookup
import QScope.Proofs.VisibleBindings
import QScope.Proofs.RenamedGlobals
import QScope.Proofs.NamespaceSwitches
import QScope.Proofs.RelativeNames
import QScope.Proofs.StringEscapes
import QScope.Proofs.ReservedWords
import QScope.Proofs.ReservedNamespaces
import QScope.Proofs.SourceRows
import QScope.Proofs.PlainRenderings
import QScope.Proofs.CaretRows
import QScope.Proofs.CarriageReturns
import QScope.Proofs.FloatLiterals
import QScope.Proofs.SystemCommands
import QScope.Proofs.NearestConfiguration
import QScope.Proofs.BracketPairs
import QScope.Proofs.NameSpellings
import QScope.Proofs.OutlineMembers
