import PackageSheet.Bindings
import PackageSheet.Catalog
import PackageSheet.Console
import PackageSheet.Destination
import PackageSheet.Diagnostic.Basic
import PackageSheet.Diagnostic.Journal
import PackageSheet.Diagnostic.Problem
import PackageSheet.Environment
import PackageSheet.FileList.Assembly
import PackageSheet.FileList.Entry
import PackageSheet.FileList.Listing
import PackageSheet.FileList.Recipe
import PackageSheet.FileList.Slot
import PackageSheet.Glob.Match
import PackageSheet.Glob.Pattern
import PackageSheet.Glob.Rooted
import PackageSheet.Invocation
import PackageSheet.Main
import PackageSheet.Package
import PackageSheet.Path
import PackageSheet.Proofs.Catalog.Coherence
import PackageSheet.Proofs.Catalog.Serving
import PackageSheet.Proofs.Destination.Found
import PackageSheet.Proofs.Destination.Image
import PackageSheet.Proofs.Destination.Normal
import PackageSheet.Proofs.Destination.Placement
import PackageSheet.Proofs.Destination.Shared
import PackageSheet.Proofs.FileList.Alike
import PackageSheet.Proofs.FileList.Circle
import PackageSheet.Proofs.FileList.Content
import PackageSheet.Proofs.FileList.Copying
import PackageSheet.Proofs.FileList.Found
import PackageSheet.Proofs.FileList.Framing
import PackageSheet.Proofs.FileList.Ledger
import PackageSheet.Proofs.FileList.Making
import PackageSheet.Proofs.FileList.Origin
import PackageSheet.Proofs.FileList.Outcome
import PackageSheet.Proofs.FileList.Reference
import PackageSheet.Proofs.FileList.Report
import PackageSheet.Proofs.FileList.Respelling
import PackageSheet.Proofs.FileList.Tour
import PackageSheet.Proofs.FileList.Visit
import PackageSheet.Proofs.Glob.Matching
import PackageSheet.Proofs.Glob.Naming
import PackageSheet.Proofs.Glob.Reading
import PackageSheet.Proofs.Glob.Rooting
import PackageSheet.Proofs.Loading.Copying
import PackageSheet.Proofs.Loading.Course
import PackageSheet.Proofs.Loading.Importing
import PackageSheet.Proofs.Loading.Splicing
import PackageSheet.Proofs.Loading.Work
import PackageSheet.Proofs.Path.Below
import PackageSheet.Proofs.Path.Order
import PackageSheet.Proofs.Session.Absolute
import PackageSheet.Proofs.Session.Agreement
import PackageSheet.Proofs.Session.Circles
import PackageSheet.Proofs.Session.Concatenation
import PackageSheet.Proofs.Session.Expansion
import PackageSheet.Proofs.Session.History
import PackageSheet.Proofs.Session.Holdings
import PackageSheet.Proofs.Session.Inverse
import PackageSheet.Proofs.Session.Listing
import PackageSheet.Proofs.Session.Run
import PackageSheet.Proofs.Session.Settled
import PackageSheet.Proofs.Session.Singly
import PackageSheet.Proofs.Session.Spelling
import PackageSheet.Proofs.Session.Views
import PackageSheet.Proofs.Session.Warnings
import PackageSheet.Proofs.Settings.Order
import PackageSheet.Proofs.Settings.Precedence
import PackageSheet.Proofs.Sheet.Acceptance
import PackageSheet.Proofs.Sheet.Alike
import PackageSheet.Proofs.Sheet.Body
import PackageSheet.Proofs.Sheet.Copying
import PackageSheet.Proofs.Sheet.Declaration
import PackageSheet.Proofs.Sheet.Grammar
import PackageSheet.Proofs.Sheet.Growth
import PackageSheet.Proofs.Sheet.Omission
import PackageSheet.Proofs.Sheet.Origin
import PackageSheet.Proofs.Sheet.Placing
import PackageSheet.Proofs.Sheet.Position
import PackageSheet.Proofs.Sheet.Progress
import PackageSheet.Proofs.Sheet.Recovery
import PackageSheet.Proofs.Sheet.Roundtrip
import PackageSheet.Proofs.Sheet.Selector
import PackageSheet.Proofs.Sheet.Source
import PackageSheet.Proofs.Sheet.Value
import PackageSheet.Proofs.Sheet.Verbatim
import PackageSheet.Proofs.Sheet.Writing
import PackageSheet.Proofs.Storage.Alike
import PackageSheet.Proofs.Storage.Directory
import PackageSheet.Proofs.Storage.Reach
import PackageSheet.Proofs.Storage.Respelled
import PackageSheet.Proofs.Storage.Rooted
import PackageSheet.Proofs.Storage.Stored
import PackageSheet.Proofs.Storage.Trail
import PackageSheet.Proofs.Storage.Undoing
import PackageSheet.Proofs.Storage.Walk
import PackageSheet.Proofs.Template.Concatenation
import PackageSheet.Proofs.Template.Mention
import PackageSheet.Proofs.Template.Nesting
import PackageSheet.Proofs.Template.Seam
import PackageSheet.Proofs.Template.Warning
import PackageSheet.Proofs.Text.Letter
import PackageSheet.Proofs.Text.Trim
import PackageSheet.Proofs.Token.Decoding
import PackageSheet.Proofs.Token.Joining
import PackageSheet.Proofs.Token.Lexing
import PackageSheet.Proofs.Token.Line
import PackageSheet.Proofs.Token.Raw
import PackageSheet.Proofs.Token.Spelling
import PackageSheet.Proofs.Token.Tiling
import PackageSheet.Proofs.Token.Trivia
import PackageSheet.Report
import PackageSheet.Session
import PackageSheet.Settings.Atom
import PackageSheet.Settings.Basic
import PackageSheet.Settings.Document
import PackageSheet.Settings.Load
import PackageSheet.Sheet.Basic
import PackageSheet.Sheet.Body
import PackageSheet.Sheet.Load
import PackageSheet.Sheet.Reading
import PackageSheet.Sheet.Rule
import PackageSheet.Sheet.Selector
import PackageSheet.Sheet.Statement
import PackageSheet.Sheet.Value
import PackageSheet.Storage.Basic
import PackageSheet.Storage.Disk
import PackageSheet.Storage.Failure
import PackageSheet.Storage.Memory
import PackageSheet.Storage.Walk
import PackageSheet.Template.Basic
import PackageSheet.Template.Expansion
import PackageSheet.Template.Scope
import PackageSheet.Text.Blank
import PackageSheet.Text.Fragment
import PackageSheet.Text.Intervals
import PackageSheet.Text.Letter
import PackageSheet.Text.Lowercase
import PackageSheet.Text.Quoted
import PackageSheet.Token.Basic
import PackageSheet.Token.Gap
import PackageSheet.Token.Lexeme
import PackageSheet.Token.Stream
