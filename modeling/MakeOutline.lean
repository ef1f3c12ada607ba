import MakeOutline.Diff.LineDiff
import MakeOutline.Diff.Unified
import MakeOutline.Edit.Json
import MakeOutline.Editor
import MakeOutline.Layout
import MakeOutline.Proofs.Session.Rollback
import MakeOutline.Proofs.Document.Regeneration
import MakeOutline.Proofs.Paragraph.Statement
import MakeOutline.Proofs.Document.Lookup
import MakeOutline.Proofs.Paragraph.Assignment
import MakeOutline.Proofs.Document.Assignment
import MakeOutline.Proofs.Files.Tree
import MakeOutline.Proofs.Editor
import MakeOutline.Proofs.Session.Replay
import MakeOutline.Proofs.Diff.Search
import MakeOutline.Proofs.Document.Independence
import MakeOutline.Proofs.Diff.Script
import MakeOutline.Proofs.Diff.Token
import MakeOutline.Proofs.Diff.LineDiff
import MakeOutline.Proofs.Document.Modification
import MakeOutline.Files.Temporary
import MakeOutline.Proofs.Files.Way
import MakeOutline.Proofs.Files.Replacement
import MakeOutline.Proofs.Document.OneParagraph
import MakeOutline.Proofs.Layout
import MakeOutline.Proofs.Paragraph.Grouping
import MakeOutline.Proofs.Json.Spelling
import MakeOutline.Proofs.Json.Written
import MakeOutline.Proofs.Edit.Json
import MakeOutline.Document.InPlace
import MakeOutline.Proofs.Document.Locality
import MakeOutline.Proofs.Document.Faults
import MakeOutline.Proofs.Document.Undo
import MakeOutline.Proofs.Document.Search
import MakeOutline.Proofs.Location
import MakeOutline.Proofs.Paragraph.Target
import MakeOutline.Proofs.Document.Order
import MakeOutline.Proofs.Document.Following
import MakeOutline.Proofs.Document.Overwrite
import MakeOutline.Proofs.Diff.Meeting
import MakeOutline.Proofs.Text.Position
import MakeOutline.Proofs.Text.Breaks
import MakeOutline.Proofs.Document.LogicalLines
