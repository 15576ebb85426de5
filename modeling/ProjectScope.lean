import ProjectScope.Command.Failure
import ProjectScope.Command.Grammar
import ProjectScope.Command.Request
import ProjectScope.Command.Run
import ProjectScope.Command.Text
import ProjectScope.Config.Options
import ProjectScope.Config.ProjectFile
import ProjectScope.Config.User
import ProjectScope.Decimal.Binary64
import ProjectScope.Decimal.Shortest
import ProjectScope.Error
import ProjectScope.FileTree.Basic
import ProjectScope.FileTree.Canonical
import ProjectScope.FileTree.Edit
import ProjectScope.Ignore.Glob
import ProjectScope.Ignore.Glob.Parser
import ProjectScope.Ignore.Pattern
import ProjectScope.Ignore.Spec
import ProjectScope.Json.Tree
import ProjectScope.Log
import ProjectScope.Main
import ProjectScope.Path.Basic
import ProjectScope.Path.Lexical
import ProjectScope.Project.Root
import ProjectScope.Proofs.Bounds
import ProjectScope.Proofs.Config.Loading
import ProjectScope.Proofs.Config.Renaming
import ProjectScope.Proofs.Config.Sections
import ProjectScope.Proofs.FileTree.Folding
import ProjectScope.Proofs.FileTree.Links
import ProjectScope.Proofs.FileTree.Lookup
import ProjectScope.Proofs.FileTree.Resolution
import ProjectScope.Proofs.FileTree.Splitting
import ProjectScope.Proofs.Ignore.Below
import ProjectScope.Proofs.Ignore.Lines
import ProjectScope.Proofs.Ignore.Literal
import ProjectScope.Proofs.Ignore.Spelling
import ProjectScope.Proofs.Path.Ancestors
import ProjectScope.Proofs.Path.Chain
import ProjectScope.Proofs.Path.Components
import ProjectScope.Proofs.Path.Fillers
import ProjectScope.Proofs.Path.Folding
import ProjectScope.Proofs.Path.NormalForm
import ProjectScope.Proofs.Project.BaseDirectory
import ProjectScope.Proofs.Project.CommonBase
import ProjectScope.Proofs.Project.NearestRoot
import ProjectScope.Proofs.Project.Obstruction
import ProjectScope.Proofs.Project.Respelling
import ProjectScope.Proofs.Result
import ProjectScope.Proofs.Session.Answers
import ProjectScope.Proofs.Session.Caches
import ProjectScope.Proofs.Session.Configuration
import ProjectScope.Proofs.Session.Discovery
import ProjectScope.Proofs.Session.Frames
import ProjectScope.Proofs.Session.History
import ProjectScope.Proofs.Session.IgnoreFile
import ProjectScope.Proofs.Session.Permanence
import ProjectScope.Proofs.Session.RootMemo
import ProjectScope.Proofs.Session.Transparency
import ProjectScope.Proofs.Specifier.Compatible
import ProjectScope.Proofs.Specifier.Congruence
import ProjectScope.Proofs.Specifier.Idempotence
import ProjectScope.Proofs.Specifier.Narrowing
import ProjectScope.Proofs.Specifier.Parser
import ProjectScope.Proofs.Specifier.RoundTrip
import ProjectScope.Proofs.Specifier.Set
import ProjectScope.Proofs.Specifier.Wildcard
import ProjectScope.Proofs.Target.Admission
import ProjectScope.Proofs.Target.Convexity
import ProjectScope.Proofs.Target.Diagnostics
import ProjectScope.Proofs.Target.Equality
import ProjectScope.Proofs.Target.Inference
import ProjectScope.Proofs.Target.Spelling
import ProjectScope.Proofs.Text.Ascii
import ProjectScope.Proofs.Text.Blank
import ProjectScope.Proofs.Text.Bytes
import ProjectScope.Proofs.Text.Lines
import ProjectScope.Proofs.Text.Numeral
import ProjectScope.Proofs.Text.Split
import ProjectScope.Proofs.Toml.Table
import ProjectScope.Proofs.Version.Acceptance
import ProjectScope.Proofs.Version.Cursor
import ProjectScope.Proofs.Version.Grammar
import ProjectScope.Proofs.Version.Order
import ProjectScope.Proofs.Version.Parts
import ProjectScope.Proofs.Version.Reading
import ProjectScope.Proofs.Version.RoundTrip
import ProjectScope.Proofs.Version.Scan
import ProjectScope.Proofs.Version.TotalOrder
import ProjectScope.Proofs.Version.Unambiguous
import ProjectScope.Session.Basic
import ProjectScope.Session.Discovery
import ProjectScope.Session.Files
import ProjectScope.Session.Memo
import ProjectScope.Specifier.Basic
import ProjectScope.Specifier.Narrowing
import ProjectScope.Specifier.Parser
import ProjectScope.Specifier.Set
import ProjectScope.Target.Basic
import ProjectScope.Target.Inference
import ProjectScope.Text.Blank
import ProjectScope.Text.Lines
import ProjectScope.Text.Numeral
import ProjectScope.Toml.Datetime
import ProjectScope.Toml.Datetime.Parser
import ProjectScope.Toml.Document
import ProjectScope.Toml.Document.Printer
import ProjectScope.Toml.Fault
import ProjectScope.Toml.Key
import ProjectScope.Toml.Layout
import ProjectScope.Toml.Number
import ProjectScope.Toml.Text.Parser
import ProjectScope.Toml.Text.Printer
import ProjectScope.Toml.Tree
import ProjectScope.Toml.Value
import ProjectScope.Toml.Value.Json
import ProjectScope.Toml.Value.Parser
import ProjectScope.Toml.Value.Printer
import ProjectScope.Version.Basic
import ProjectScope.Version.Order
import ProjectScope.Version.Parser
import ProjectScope.Version.Printer
