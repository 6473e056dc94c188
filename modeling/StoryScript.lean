import StoryScript.Command.Basic
import StoryScript.Command.Options
import StoryScript.Command.Outcome
import StoryScript.Config.Basic
import StoryScript.Config.File
import StoryScript.Config.Reading
import StoryScript.Data.Basic
import StoryScript.Data.Json
import StoryScript.Data.Toml.Document
import StoryScript.Data.Toml.Number
import StoryScript.Data.Toml.Quoted
import StoryScript.Data.Toml.Table
import StoryScript.Data.Yaml
import StoryScript.Document.Basic
import StoryScript.Document.Body
import StoryScript.Document.Carry
import StoryScript.Document.Export
import StoryScript.Document.Graph
import StoryScript.Document.Issue
import StoryScript.Document.Knot
import StoryScript.Document.Reachability
import StoryScript.Document.Reading
import StoryScript.Document.Rendering
import StoryScript.Editor.Address
import StoryScript.Editor.Authority
import StoryScript.Editor.Diagnostic
import StoryScript.Editor.Hover
import StoryScript.Editor.Location
import StoryScript.Editor.Workspace
import StoryScript.Files.Fault
import StoryScript.Files.Path
import StoryScript.Files.Tree
import StoryScript.Line.Form
import StoryScript.Line.Pattern
import StoryScript.Line.Reading
import StoryScript.Lint.Finding
import StoryScript.Lint.Rules
import StoryScript.Main
import StoryScript.Media.Filename
import StoryScript.Media.Matching
import StoryScript.Media.Resolution
import StoryScript.Media.Scheduler
import StoryScript.Number.Binary64
import StoryScript.Number.Decimal
import StoryScript.Number.Integer
import StoryScript.Proofs.Body.Act
import StoryScript.Proofs.Body.Frames
import StoryScript.Proofs.Body.Outline
import StoryScript.Proofs.Body.Printing
import StoryScript.Proofs.Body.Reading
import StoryScript.Proofs.Body.RoundTrip
import StoryScript.Proofs.Body.Shape
import StoryScript.Proofs.Line.Blank
import StoryScript.Proofs.Story.Same
import StoryScript.Proofs.Text.Scan
import StoryScript.Proofs.Text.Strip
import StoryScript.Report.Basic
import StoryScript.Report.Lint
import StoryScript.Report.Media
import StoryScript.Report.Plain
import StoryScript.Report.Script
import StoryScript.Session.Basic
import StoryScript.Session.Edit
import StoryScript.Session.Names
import StoryScript.Story.Alignment
import StoryScript.Story.Caret
import StoryScript.Story.Edit
import StoryScript.Story.EditError
import StoryScript.Story.Identity
import StoryScript.Story.Item
import StoryScript.Story.Node
import StoryScript.Text.Blank
import StoryScript.Text.Bytes
import StoryScript.Text.CaseTable
import StoryScript.Text.Difference
import StoryScript.Text.Hexadecimal
import StoryScript.Text.Lines
import StoryScript.Text.Lowercase
import StoryScript.Text.PrintableTable
import StoryScript.Text.Quoted
import StoryScript.Text.Scan
import StoryScript.Text.Word
import StoryScript.Text.WordTable
import StoryScript.Proofs.Line.Arrow
import StoryScript.Proofs.Line.Choice
import StoryScript.Proofs.Line.Branch
import StoryScript.Proofs.Line.Readable
import StoryScript.Proofs.Number.Text
import StoryScript.Proofs.Body.Readable
import StoryScript.Proofs.Body.Forced
import StoryScript.Proofs.Body.Front
import StoryScript.Proofs.Body.Diverts
import StoryScript.Proofs.Body.Lossless
import StoryScript.Proofs.Story.Alignment
import StoryScript.Proofs.Story.Labels
import StoryScript.Proofs.Body.Supply
import StoryScript.Proofs.Text.Lines
import StoryScript.Proofs.Document.Runs
import StoryScript.Proofs.Document.Section
import StoryScript.Proofs.Document.Carry
import StoryScript.Proofs.Document.Reread
import StoryScript.Proofs.Story.Edit
import StoryScript.Proofs.Story.Identities
import StoryScript.Proofs.Body.Rewritten
import StoryScript.Proofs.Session.Outcome
import StoryScript.Proofs.Session.Reachable
import StoryScript.Proofs.Session.Placement
import StoryScript.Proofs.Session.ItemEdit
import StoryScript.Proofs.Body.Identities
import StoryScript.Proofs.Body.Recorded
import StoryScript.Proofs.Document.Identities
import StoryScript.Proofs.Session.Snapshot
import StoryScript.Proofs.Body.Stitches
import StoryScript.Proofs.Document.Names
import StoryScript.Proofs.Line.Redirected
import StoryScript.Proofs.Line.Header
import StoryScript.Proofs.Document.Changes
import StoryScript.Proofs.Session.Names
import StoryScript.Proofs.Session.Timeline
import StoryScript.Proofs.Document.Apart
import StoryScript.Proofs.Session.Apart
import StoryScript.Proofs.Document.Trailing
import StoryScript.Proofs.Document.Regions
import StoryScript.Proofs.Document.Inserted
import StoryScript.Proofs.Session.RawBody
import StoryScript.Proofs.Story.Reworded
import StoryScript.Proofs.Body.Reworded
import StoryScript.Proofs.Line.Ending
import StoryScript.Proofs.Line.Retargeted
import StoryScript.Proofs.Document.Renamed
import StoryScript.Proofs.Document.Retargeted
import StoryScript.Proofs.Story.Diagonal
import StoryScript.Proofs.Story.Carried
import StoryScript.Proofs.Document.Visible
import StoryScript.Proofs.Session.Renaming
import StoryScript.Proofs.Body.Restored
import StoryScript.Proofs.Body.Displaced
import StoryScript.Proofs.Document.Annotated
import StoryScript.Proofs.Document.Chapters
import StoryScript.Proofs.Document.Reprinted
import StoryScript.Proofs.Line.Directive
import StoryScript.Proofs.Media.Resolution
import StoryScript.Proofs.Media.Scheduler
import StoryScript.Proofs.Document.Membership
import StoryScript.Proofs.Document.Spans
import StoryScript.Proofs.Document.Markers
import StoryScript.Proofs.Document.Tiling
import StoryScript.Proofs.Document.Front
import StoryScript.Proofs.Document.RoundTrip
import StoryScript.Proofs.Document.Links
import StoryScript.Proofs.Body.Performed
import StoryScript.Proofs.Body.Nested
import StoryScript.Proofs.Document.Ranges
import StoryScript.Proofs.Body.Arrows
import StoryScript.Proofs.Document.Arrows
import StoryScript.Proofs.Body.Parents
import StoryScript.Proofs.Document.Reachability
import StoryScript.Proofs.Document.Start
import StoryScript.Proofs.Story.Matching
import StoryScript.Proofs.Story.Handing
import StoryScript.Proofs.Story.Covering
import StoryScript.Proofs.Story.Untouched
import StoryScript.Proofs.Document.Carrying
import StoryScript.Proofs.Session.Unchanged
import StoryScript.Proofs.Session.Positioned
import StoryScript.Proofs.Session.Layout
import StoryScript.Proofs.Document.Opening
import StoryScript.Proofs.Session.InitialDivert
import StoryScript.Proofs.Story.Nodes
import StoryScript.Proofs.Story.Location
import StoryScript.Proofs.Story.Surroundings
import StoryScript.Proofs.Story.Local
import StoryScript.Proofs.Story.Moving
import StoryScript.Proofs.Story.Caret
import StoryScript.Proofs.Media.Batch
import StoryScript.Proofs.Line.Heads
import StoryScript.Proofs.Body.Kept
import StoryScript.Proofs.Body.Nesting
import StoryScript.Proofs.Body.Choices
import StoryScript.Proofs.Line.Written
import StoryScript.Proofs.Editor.Arrows
import StoryScript.Proofs.Editor.Definition
import StoryScript.Proofs.Document.Issues
import StoryScript.Proofs.Lint.Finding
import StoryScript.Proofs.Editor.Diagnostic
import StoryScript.Proofs.Lint.Dangling
