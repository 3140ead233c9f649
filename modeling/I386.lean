import I386.Main
import I386.Proofs.Action
import I386.Proofs.Addressing
import I386.Proofs.Resolution
import I386.Proofs.Staging
import I386.Proofs.Composition
import I386.Proofs.Steps
import I386.Proofs.Acceptance
import I386.Proofs.OperandTable
import I386.Proofs.Locality
import I386.Proofs.Conduct
import I386.Proofs.Remainder
import I386.Proofs.Heading
import I386.Proofs.Contracts
import I386.Proofs.History
import I386.Proofs.PrefixRun
import I386.Proofs.BranchTarget
import I386.Proofs.Transfers
import I386.Proofs.Parallel
import I386.Proofs.Independence
import I386.Proofs.Refusals
import I386.Proofs.MemoryReads
import I386.Proofs.Tiling
import I386.Proofs.Concatenation
import I386.Proofs.Mirror
import I386.Proofs.WriteBack
import I386.Proofs.Relocation
import I386.Proofs.HexEncoding
import I386.Proofs.ImmediateForms
import I386.Proofs.StagedImmediates
import I386.Proofs.Replay
import I386.Proofs.TracedListing
import I386.Proofs.CountLimit
import I386.Proofs.Consumption
import I386.Proofs.LastWriters
import I386.Proofs.MemoryShape
import I386.Proofs.Intervals
import I386.Proofs.WrittenNumbers
import I386.Proofs.Readers
import I386.Proofs.OptionWords
import I386.Proofs.TomlLines
import I386.Proofs.SettingsDocuments
import I386.Proofs.Outcomes
import I386.Proofs.PatternContracts
import I386.Proofs.BranchFields
import I386.Proofs.ChosenLoads
import I386.Proofs.StreamReads
