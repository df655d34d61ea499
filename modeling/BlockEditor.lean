import BlockEditor.Editor.Workbench
import BlockEditor.Main
import BlockEditor.Proofs.Accounts
import BlockEditor.Proofs.AppendedSources
import BlockEditor.Proofs.AssembledBlocks
import BlockEditor.Proofs.BalancedSources
import BlockEditor.Proofs.BlankedComments
import BlockEditor.Proofs.CompoundAssignments
import BlockEditor.Proofs.Concatenation
import BlockEditor.Proofs.Elements
import BlockEditor.Proofs.Escapes
import BlockEditor.Proofs.ListedRanges
import BlockEditor.Proofs.Loadable
import BlockEditor.Proofs.Membership
import BlockEditor.Proofs.Offsets
import BlockEditor.Proofs.Overflows
import BlockEditor.Proofs.Precedence
import BlockEditor.Proofs.ReadBack
import BlockEditor.Proofs.ReadLiterals
import BlockEditor.Proofs.RefusedLoads
import BlockEditor.Proofs.Regeneration
import BlockEditor.Proofs.ReportedDocuments
import BlockEditor.Proofs.ReservedWords
import BlockEditor.Proofs.RunHistories
import BlockEditor.Proofs.ShownDocuments
import BlockEditor.Proofs.Soundness
import BlockEditor.Proofs.StrayStatements
import BlockEditor.Proofs.TextCursor
import BlockEditor.Proofs.Transitivity
import BlockEditor.Proofs.Unpacking
import BlockEditor.Proofs.WellFormedDocuments
