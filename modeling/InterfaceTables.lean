import InterfaceTables.Command.Generate
import InterfaceTables.Command.Sweep
import InterfaceTables.Main
import InterfaceTables.Proofs.Placing
import InterfaceTables.Proofs.FailedWrite
import InterfaceTables.Proofs.WellFormed
import InterfaceTables.Proofs.Discovery
import InterfaceTables.Proofs.WriteAgain
import InterfaceTables.Proofs.SchemaGrammar
import InterfaceTables.Proofs.SourceReading
import InterfaceTables.Proofs.ReplacedLinks
import InterfaceTables.Proofs.CheckAndWrite
import InterfaceTables.Proofs.Identifiers
import InterfaceTables.Proofs.HeaderAndSource
import InterfaceTables.Proofs.AcceptedNames
import InterfaceTables.Proofs.SourceLiterals
import InterfaceTables.Proofs.ReservedWords
import InterfaceTables.Proofs.CompletedDocuments
import InterfaceTables.Proofs.RunEffects
import InterfaceTables.Proofs.SameContents
import InterfaceTables.Proofs.OwnOutput
import InterfaceTables.Proofs.TrueReports
import InterfaceTables.Proofs.WrittenToml
import InterfaceTables.Proofs.LayeredSettings
import InterfaceTables.Proofs.WorkingPath
import InterfaceTables.Proofs.SavedSettings
import InterfaceTables.Proofs.DirectoryWrites
import InterfaceTables.Proofs.GeneratedFiles
import InterfaceTables.Proofs.DirectorySearch
import InterfaceTables.Proofs.IndependentRuns
import InterfaceTables.Proofs.TemplateParts
import InterfaceTables.Proofs.EarliestClash
import InterfaceTables.Proofs.RefusedDirectories
import InterfaceTables.Proofs.EditScripts
import InterfaceTables.Proofs.MovedRuns
import InterfaceTables.Proofs.LeadingRuns
import InterfaceTables.Proofs.ChangedBlocks
import InterfaceTables.Proofs.AppliedHunks
import InterfaceTables.Proofs.HunkGroups
import InterfaceTables.Proofs.PrintedHunks
import InterfaceTables.Proofs.FirstViolation
import InterfaceTables.Proofs.ExactDiscovery
import InterfaceTables.Proofs.LoadingInOrder
import InterfaceTables.Proofs.WrittenState
import InterfaceTables.Proofs.CheckAfterWrite
import InterfaceTables.Proofs.Containment
import InterfaceTables.Proofs.TextBytes
import InterfaceTables.Proofs.StaleReports
import InterfaceTables.Proofs.FoundDirectories
import InterfaceTables.Proofs.GuardsAndIncludes
import InterfaceTables.Proofs.Rounding
import InterfaceTables.Proofs.ShortestDigits
import InterfaceTables.Proofs.NumberTexts
import InterfaceTables.Proofs.DecidingEntries
import InterfaceTables.Proofs.VariableTexts
