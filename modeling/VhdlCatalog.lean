import VhdlCatalog.Text.Blank
import VhdlCatalog.Text.Word
import VhdlCatalog.Text.Case
import VhdlCatalog.Text.Digit
import VhdlCatalog.Text.Quoted
import VhdlCatalog.Source.Cursor
import VhdlCatalog.Catalog
import VhdlCatalog.Scan.FileScan
import VhdlCatalog.Build
import VhdlCatalog.Render.Renderer
import VhdlCatalog.CommandLine.Doc
import VhdlCatalog.Main
import VhdlCatalog.Proofs.Runs
import VhdlCatalog.Proofs.SourceLine
import VhdlCatalog.Proofs.CommentRun
import VhdlCatalog.Proofs.ClosingRule
import VhdlCatalog.Proofs.PackageMembers
import VhdlCatalog.Proofs.Block
import VhdlCatalog.Proofs.Stretch
import VhdlCatalog.Proofs.Openings
import VhdlCatalog.Proofs.Closings
import VhdlCatalog.Proofs.Ranges
import VhdlCatalog.Proofs.Documentation
import VhdlCatalog.Proofs.Nesting
import VhdlCatalog.Proofs.BlockRun
import VhdlCatalog.Proofs.Failures
import VhdlCatalog.Proofs.CommentTail
import VhdlCatalog.Proofs.Correspondence
import VhdlCatalog.Proofs.Encoding
import VhdlCatalog.Proofs.Piece
import VhdlCatalog.Proofs.Canonical
import VhdlCatalog.Proofs.CanonicalBlock
import VhdlCatalog.Proofs.CanonicalSource
import VhdlCatalog.Proofs.RoundTrip
import VhdlCatalog.Proofs.DisplayOrder
import VhdlCatalog.Proofs.LibraryUnits
import VhdlCatalog.Proofs.CatalogBatches
import VhdlCatalog.Proofs.ConcurrentBuild
import VhdlCatalog.Proofs.LibraryNames
import VhdlCatalog.Proofs.SurvivingFiles
import VhdlCatalog.Proofs.InsertionOrder
import VhdlCatalog.Proofs.Concatenation
import VhdlCatalog.Proofs.Decoding
import VhdlCatalog.Proofs.BodyCutoff
import VhdlCatalog.Proofs.CatalogRuns
import VhdlCatalog.Proofs.RefusedCalls
import VhdlCatalog.Proofs.OpeningForms
import VhdlCatalog.Proofs.DeclaredNames
import VhdlCatalog.Proofs.Readers
import VhdlCatalog.Proofs.Classification
import VhdlCatalog.Proofs.Resolution
import VhdlCatalog.Proofs.Likeness
import VhdlCatalog.Proofs.LetterCase
import VhdlCatalog.Proofs.LineEndings
import VhdlCatalog.Proofs.Escaping
import VhdlCatalog.Proofs.PageShape
import VhdlCatalog.Proofs.StringLiterals
import VhdlCatalog.Proofs.Spacing
import VhdlCatalog.Proofs.MemberLines
import VhdlCatalog.Proofs.Summaries
import VhdlCatalog.Proofs.HeaderSummary
import VhdlCatalog.Proofs.Excerpts
import VhdlCatalog.Proofs.OneLineMembers
import VhdlCatalog.Proofs.MemberOrder
import VhdlCatalog.Proofs.AtomicBatches
import VhdlCatalog.Proofs.Identities
import VhdlCatalog.Proofs.OutlineOrder
import VhdlCatalog.Proofs.PathSpelling
import VhdlCatalog.Proofs.Assignments
import VhdlCatalog.Proofs.ScanList
import VhdlCatalog.Proofs.OptionValues
import VhdlCatalog.Proofs.ExitStatus
import VhdlCatalog.Proofs.KeywordEmphasis
import VhdlCatalog.Proofs.WordEmphasis
import VhdlCatalog.Proofs.ProcedureEnd
import VhdlCatalog.Proofs.Designators
import VhdlCatalog.Proofs.EndLines
