import BuildTargets.BuildFile.Edit
import BuildTargets.BuildFile.Locate
import BuildTargets.BuildFile.Status
import BuildTargets.Command
import BuildTargets.CommandLine.Basic
import BuildTargets.CommandLine.Reader
import BuildTargets.CommandLine.Run
import BuildTargets.Decimal.Binary64
import BuildTargets.Decimal.Shortest
import BuildTargets.Fault
import BuildTargets.FileTree.Access
import BuildTargets.FileTree.Basic
import BuildTargets.FileTree.Resolve
import BuildTargets.Host
import BuildTargets.Path.Basic
import BuildTargets.Path.Normal
import BuildTargets.Prompt
import BuildTargets.Proofs.BuildFile.ArgumentLists
import BuildTargets.Proofs.BuildFile.Frame
import BuildTargets.Proofs.BuildFile.Overwrite
import BuildTargets.Proofs.Fault.Bind
import BuildTargets.Proofs.Path.Below
import BuildTargets.Proofs.Request.Accepted
import BuildTargets.Proofs.Session.Convergence
import BuildTargets.Proofs.Session.Step
import BuildTargets.Proofs.Statement.Grammar
import BuildTargets.Proofs.Statement.ReadBack
import BuildTargets.Proofs.Sync.Plan
import BuildTargets.Proofs.Sync.Run
import BuildTargets.Proofs.Text.Lines
import BuildTargets.Proofs.Text.Trim
import BuildTargets.Report
import BuildTargets.Request
import BuildTargets.Session
import BuildTargets.Settings.Basic
import BuildTargets.Settings.File
import BuildTargets.Source
import BuildTargets.Statement.Basic
import BuildTargets.Statement.Reader
import BuildTargets.Statement.Writer
import BuildTargets.Sync
import BuildTargets.Template
import BuildTargets.Text.Basic
import BuildTargets.Text.Blank
import BuildTargets.Text.Json
import BuildTargets.Text.Line
import BuildTargets.Text.Position
import BuildTargets.Text.Quoted
import BuildTargets.Text.Shown
import BuildTargets.Text.Utf8
import BuildTargets.Text.Visible
import BuildTargets.Toml.Document
import BuildTargets.Toml.Key
import BuildTargets.Toml.Moment
import BuildTargets.Toml.Number
import BuildTargets.Toml.Quoted
import BuildTargets.Toml.RoundTrip
import BuildTargets.Toml.Table
import BuildTargets.Toml.Trivia
import BuildTargets.Toml.Value
import BuildTargets.Toml.Written
import BuildTargets.World
import BuildTargets.Proofs.Session.Effects
import BuildTargets.Proofs.Command.Resolve
import BuildTargets.Proofs.Command.Agreement
import BuildTargets.Proofs.Toml.Spelling
import BuildTargets.Proofs.Toml.Entries
import BuildTargets.Proofs.Toml.FlatTable
import BuildTargets.Proofs.Settings.Update
import BuildTargets.Proofs.FileTree.Written
import BuildTargets.Proofs.Command.Setting
import BuildTargets.Proofs.Command.Show
import BuildTargets.Proofs.FileTree.Replaced
import BuildTargets.Proofs.Command.Declare
import BuildTargets.Proofs.Command.Silent
import BuildTargets.Proofs.Session.Interleaving
import BuildTargets.Proofs.Path.Canonical
import BuildTargets.Proofs.Source.RelativePath
import BuildTargets.Proofs.BuildFile.Rewritten
import BuildTargets.Proofs.Toml.Comments.Basic
import BuildTargets.Proofs.Toml.Comments.Scalars
import BuildTargets.Proofs.Toml.Comments.Keys
import BuildTargets.Proofs.Toml.Comments.Tables
import BuildTargets.Proofs.Toml.Comments.Values
import BuildTargets.Proofs.Toml.Comments.Documents
import BuildTargets.Proofs.Toml.Comments.Order
import BuildTargets.Proofs.Settings.Comments
import BuildTargets.Proofs.Template.Split
import BuildTargets.Proofs.Path.Parent
import BuildTargets.Proofs.Request.Consistent
import BuildTargets.Proofs.FileTree.Ways
import BuildTargets.Proofs.FileTree.Purposes
import BuildTargets.Proofs.FileTree.Meets
import BuildTargets.Proofs.FileTree.Replacement
import BuildTargets.Proofs.World.Store
import BuildTargets.Proofs.Prompt.Lines
import BuildTargets.Proofs.BuildFile.Restyled
import BuildTargets.Proofs.Source.Aliases
import BuildTargets.Proofs.FileTree.Spelling
import BuildTargets.Proofs.Command.Locate
import BuildTargets.Proofs.Text.Json
import BuildTargets.Proofs.Report.Told
import BuildTargets.Proofs.CommandLine.Given
import BuildTargets.Proofs.Command.Refused
