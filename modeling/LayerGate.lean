import LayerGate.Main
import LayerGate.Report.Schema
import LayerGate.Proofs.GateSoundness
import LayerGate.Proofs.GraphAccounting
import LayerGate.Proofs.CycleCover
import LayerGate.Proofs.SourceRoots
import LayerGate.Proofs.JoinedText
import LayerGate.Proofs.KeptEntries
import LayerGate.Proofs.ReportRecords
import LayerGate.Proofs.RecordOrder
import LayerGate.Proofs.ReportCompleteness
import LayerGate.Proofs.ReportDeterminism
import LayerGate.Proofs.JsonText
import LayerGate.Proofs.JsonRoundTrip
import LayerGate.Proofs.ReportReading
import LayerGate.Proofs.StoredReport
import LayerGate.Proofs.CheckThenVerify
import LayerGate.Proofs.ShownDifferences
import LayerGate.Proofs.Discovery
import LayerGate.Proofs.NestedRules
import LayerGate.Proofs.SpecifierMeaning
import LayerGate.Proofs.ScanFiltering
import LayerGate.Proofs.SourceFaults
import LayerGate.Proofs.UnclassifiedModes
import LayerGate.Proofs.CycleAgreement
import LayerGate.Proofs.ConfigLoading
import LayerGate.Proofs.GateLabels
import LayerGate.Proofs.LooserRules
import LayerGate.Proofs.RuleMatrix
import LayerGate.Proofs.Decomposition
import LayerGate.Proofs.FoundCycles
import LayerGate.Proofs.CycleCount
import LayerGate.Proofs.ImportChains
import LayerGate.Proofs.CommentBlanking
import LayerGate.Proofs.SpecifierLiterals
import LayerGate.Proofs.NestedImports
import LayerGate.Proofs.FinishedFiles
import LayerGate.Proofs.ModuleFiles
import LayerGate.Proofs.ModuleNames
import LayerGate.Proofs.ProjectBounds
