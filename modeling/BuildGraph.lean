import BuildGraph.Main
import BuildGraph.Proofs.BuildFileRoundTrip
import BuildGraph.Proofs.RuleTable
import BuildGraph.Proofs.DeployGate
import BuildGraph.Proofs.Repeating
import BuildGraph.Proofs.DeployCommand
import BuildGraph.Proofs.EdgeLines
import BuildGraph.Proofs.Uniqueness
import BuildGraph.Proofs.SharedConfigs
import BuildGraph.Proofs.Cycles
import BuildGraph.Proofs.WrittenDescriptions
import BuildGraph.Proofs.Concatenation
import BuildGraph.Proofs.SessionGrowth
import BuildGraph.Proofs.KeptTrees
import BuildGraph.Proofs.FailedRuns
import BuildGraph.Proofs.EdgeWords
import BuildGraph.Proofs.RegenerationCommand
import BuildGraph.Proofs.EscapedTexts
import BuildGraph.Proofs.Batches
import BuildGraph.Proofs.DeployOutcomes
import BuildGraph.Proofs.Refusals
import BuildGraph.Proofs.FinalPaths
import BuildGraph.Proofs.Mirroring
import BuildGraph.Proofs.SelfFeeding
import BuildGraph.Proofs.MissingNames
import BuildGraph.Proofs.NamedDescriptions
import BuildGraph.Proofs.Registrations
import BuildGraph.Proofs.GraphDocuments
import BuildGraph.Proofs.Reordering
import BuildGraph.Proofs.ConfigSchema
import BuildGraph.Proofs.Warnings
import BuildGraph.Proofs.NormalForms
import BuildGraph.Proofs.Timestamps
