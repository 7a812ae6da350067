import RegAtlas.BitSet.Lemmas
import RegAtlas.Decimal.Shortest
import RegAtlas.Edit
import RegAtlas.Main
import RegAtlas.Proofs.BitLayout
import RegAtlas.Proofs.BitSet.Calls
import RegAtlas.Proofs.BitSet.Contents
import RegAtlas.Proofs.CHeader.Documentation
import RegAtlas.Proofs.CHeader.EntryWidths
import RegAtlas.Proofs.CHeader.Order
import RegAtlas.Proofs.Check.FirstFlaw
import RegAtlas.Proofs.Columns.Alignment
import RegAtlas.Proofs.CommandLine.Generation
import RegAtlas.Proofs.Docs
import RegAtlas.Proofs.Dump.Expansion
import RegAtlas.Proofs.Dump.Number
import RegAtlas.Proofs.Dump.Recording
import RegAtlas.Proofs.FaultPlaces
import RegAtlas.Proofs.Guarded.Generator
import RegAtlas.Proofs.Listing.Represented
import RegAtlas.Proofs.Markdown.AlwaysWrite
import RegAtlas.Proofs.Markdown.DumpAnalysis
import RegAtlas.Proofs.Markdown.Table
import RegAtlas.Proofs.Resolve.Denotation
import RegAtlas.Proofs.Resolve.JoinedValues
import RegAtlas.Proofs.Resolve.PrintedBits
import RegAtlas.Proofs.Resolve.Removal
import RegAtlas.Proofs.SortedViews
import RegAtlas.Proofs.Table.Entries
import RegAtlas.Proofs.Table.Pointwise
import RegAtlas.Table.Lemmas
