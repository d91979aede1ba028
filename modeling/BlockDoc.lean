import BlockDoc.Main
import BlockDoc.Document.Check
import BlockDoc.TypedValue.Native
import BlockDoc.Proofs.Block.Groups
import BlockDoc.Proofs.Block.Openers
import BlockDoc.Proofs.Conversion.References
import BlockDoc.Proofs.Conversion.Output
import BlockDoc.Proofs.Lineage.Chain
import BlockDoc.Proofs.Tree.Parent
import BlockDoc.Proofs.Tree.Load
import BlockDoc.Proofs.Tree.Lineage
import BlockDoc.Proofs.Lineage.Acyclic
import BlockDoc.Proofs.TypedValue.Plain
import BlockDoc.Proofs.Document.Contents
import BlockDoc.Proofs.Document.Bare
import BlockDoc.Proofs.Document.Json
import BlockDoc.Proofs.Conversion.Totality
import BlockDoc.Proofs.Conversion.Growth
import BlockDoc.Proofs.Conversion.Order
import BlockDoc.Proofs.Block.Address
import BlockDoc.Proofs.Validation.Breakdown
import BlockDoc.Proofs.Tree.Faults
import BlockDoc.Proofs.CommandLine.Effects
import BlockDoc.Proofs.Block.Surplus
import BlockDoc.Proofs.Binary64.Nearest
import BlockDoc.Proofs.Decimal.Writing
import BlockDoc.Proofs.TypedValue.Mirror
import BlockDoc.Proofs.TypedValue.Exact
import BlockDoc.Proofs.TypedValue.Restore
import BlockDoc.Proofs.TypeExpr.Grammar
import BlockDoc.Proofs.Lineage.Path
import BlockDoc.Proofs.Tree.Relocation
import BlockDoc.Proofs.Tree.Retry
import BlockDoc.Proofs.Tree.Diagnostics
import BlockDoc.Proofs.Tree.Cycle
import BlockDoc.Proofs.Lineage.Ledger
import BlockDoc.Proofs.TypedValue.Reload
import BlockDoc.Proofs.Document.Metadata
import BlockDoc.Proofs.Document.Nested
import BlockDoc.Proofs.Conversion.Description
