import ParallelPatterns.Encoding.Device
import ParallelPatterns.Encoding.Directive
import ParallelPatterns.Encoding.Gpu
import ParallelPatterns.Encoding.Input
import ParallelPatterns.Encoding.Source
import ParallelPatterns.Main
import ParallelPatterns.Proofs.DeviceRun
import ParallelPatterns.Proofs.SubtreeOrder
import ParallelPatterns.Proofs.DoAllPositions
import ParallelPatterns.Proofs.SourceRegions
import ParallelPatterns.Proofs.InPlace
import ParallelPatterns.Proofs.History
import ParallelPatterns.Proofs.Lifespan
import ParallelPatterns.Proofs.Joining
import ParallelPatterns.Proofs.ListedReads
import ParallelPatterns.Proofs.StaticRegions
import ParallelPatterns.Proofs.EntryPoints
import ParallelPatterns.Proofs.PipelineRecords
import ParallelPatterns.Proofs.DirectivePlaces
import ParallelPatterns.Proofs.TaskGroups
import ParallelPatterns.Proofs.CombinedRegions
import ParallelPatterns.Encoding.Configuration
import ParallelPatterns.Proofs.ConfigurationStore
import ParallelPatterns.Proofs.Nesting
import ParallelPatterns.Proofs.FileMapping
import ParallelPatterns.Proofs.PrivateArrays
import ParallelPatterns.Proofs.VariableRegions
import ParallelPatterns.Proofs.PriorWrites
import ParallelPatterns.Proofs.WayDown
import ParallelPatterns.Proofs.NearestVariable
import ParallelPatterns.Proofs.AliasClosure
import ParallelPatterns.Proofs.FunctionNodes
import ParallelPatterns.Proofs.Beside
import ParallelPatterns.Proofs.PassedNodes
import ParallelPatterns.Proofs.Callers
import ParallelPatterns.Proofs.PostDominators
import ParallelPatterns.Proofs.SuggestionOrder
import ParallelPatterns.Proofs.LoopScopes
import ParallelPatterns.Proofs.WaitLine
import ParallelPatterns.Proofs.KnownEffects
import ParallelPatterns.Proofs.Predecessors
import ParallelPatterns.Proofs.CriticalRanges
import ParallelPatterns.Proofs.IndexBrackets
import ParallelPatterns.Proofs.StageDeletion
import ParallelPatterns.Proofs.WriteIdentifiers
import ParallelPatterns.Proofs.ClauseText
