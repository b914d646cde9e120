import DocOutline.Entry.Decoding
import DocOutline.Json.Reader
import DocOutline.Outline.Basic
import DocOutline.Walk.Log
import DocOutline.Proofs.Dispatch
import DocOutline.Proofs.Rendering
import DocOutline.Proofs.Program
import DocOutline.Proofs.Reconcile
import DocOutline.Proofs.TopLevel
import DocOutline.Proofs.Tasks
import DocOutline.Proofs.Reports
import DocOutline.Proofs.Provenance
import DocOutline.Proofs.Origins
import DocOutline.Proofs.Missing
import DocOutline.Proofs.Statements
import DocOutline.Proofs.Alike
import DocOutline.Proofs.Matching
import DocOutline.Proofs.Twins
import DocOutline.Proofs.PlainComments
import DocOutline.Proofs.Offsets
import DocOutline.Proofs.ContentOffsets
import DocOutline.Proofs.Sealed
import DocOutline.Proofs.FileCoordinates
import DocOutline.Proofs.PrintedJson
import DocOutline.Proofs.WrittenEntries
import DocOutline.Proofs.DepthFirst
import DocOutline.Proofs.Conservation
import DocOutline.Proofs.Containers
import DocOutline.Proofs.CommentChains
import DocOutline.Proofs.ExportStatus
import DocOutline.Proofs.MarkedSpans
import DocOutline.Proofs.Layout
import DocOutline.Proofs.StyleOfTags
import DocOutline.Proofs.BytePositions
import DocOutline.Proofs.Heritage
import DocOutline.Proofs.SourceSets
import DocOutline.Proofs.StyleByLines
