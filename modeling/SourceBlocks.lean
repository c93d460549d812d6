import SourceBlocks.Main
import SourceBlocks.Proofs.Block.Assignment
import SourceBlocks.Proofs.Block.Partition
import SourceBlocks.Proofs.Block.StringWalk
import SourceBlocks.Proofs.FeatureText
import SourceBlocks.Proofs.Fragment
import SourceBlocks.Proofs.Grammar.RespacedImports
import SourceBlocks.Proofs.Placement.Fragments
import SourceBlocks.Proofs.Placement.Led
import SourceBlocks.Proofs.Placement.Priority
import SourceBlocks.Proofs.Placement.Recorded
import SourceBlocks.Proofs.Report.Assignments
import SourceBlocks.Proofs.Split.Comment
import SourceBlocks.Proofs.Split.Refusal
import SourceBlocks.Proofs.Text.Nested
import SourceBlocks.Proofs.Grammar.Bracketed
