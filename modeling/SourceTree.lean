import SourceTree.Form
import SourceTree.View
import SourceTree.Equality
import SourceTree.Identity
import SourceTree.Name
import SourceTree.Traversal.Basic
import SourceTree.Traversal.Walk
import SourceTree.Traversal.Run
import SourceTree.Text.Blank
import SourceTree.Build.Code
import SourceTree.Build.Xml
import SourceTree.Layout.Format
import SourceTree.Json.Layout
import SourceTree.Usings
import SourceTree.Rename
import SourceTree.Body
import SourceTree.Documentation
import SourceTree.Context
import SourceTree.Pipeline.Basic
import SourceTree.Command.Argument
import SourceTree.Command.Run
import SourceTree.Main
import SourceTree.Proofs.Traversal.Fuel
import SourceTree.Proofs.Traversal.Reply
import SourceTree.Proofs.Traversal.Every
import SourceTree.Proofs.Traversal.Sharing
import SourceTree.Proofs.Traversal.Takeover
import SourceTree.Proofs.Traversal.PassThrough
import SourceTree.Proofs.Traversal.Substitution
import SourceTree.Proofs.Json.Parse
import SourceTree.Proofs.Json.Print
import SourceTree.Proofs.Json.Tree
import SourceTree.Proofs.Json.Written
import SourceTree.Proofs.Pipeline.Schedule
import SourceTree.Proofs.Pipeline.Order
import SourceTree.Proofs.Pipeline.Refusal
import SourceTree.Proofs.Traversal.Coverage
import SourceTree.Proofs.Traversal.Rework
import SourceTree.Proofs.Traversal.Stamp
import SourceTree.Proofs.Traversal.Separated
import SourceTree.Proofs.Usings.Normalizer
import SourceTree.Proofs.Rename
import SourceTree.Proofs.Rename.Exact
import SourceTree.Proofs.Rename.Leftover
import SourceTree.Proofs.Layout.Agreement
import SourceTree.Proofs.Layout.Built
import SourceTree.Proofs.Layout.Essence
import SourceTree.Proofs.Usings.Canonical
import SourceTree.Proofs.Usings.Sorter
import SourceTree.Proofs.Usings.Mixed
import SourceTree.Proofs.Documentation.Rows
import SourceTree.Proofs.Shape
import SourceTree.Proofs.Traversal.FirstToken
import SourceTree.Proofs.Documentation.Attach
import SourceTree.Proofs.Documentation.Summary
import SourceTree.Proofs.Context
import SourceTree.Proofs.Traversal.Strip
import SourceTree.Proofs.Layout.Post
import SourceTree.Proofs.Layout.Comments
import SourceTree.Proofs.Usings.Membership
import SourceTree.Proofs.Usings.Renamed
import SourceTree.Proofs.Command.Rewrites
import SourceTree.Proofs.Enumeration
import SourceTree.Proofs.Layout.Lines
import SourceTree.Proofs.Layout.Attributes
import SourceTree.Proofs.Build.Quotation
