import ScriptBindings.Binding.GenerationError
import ScriptBindings.Binding.Generator
import ScriptBindings.Binding.Method
import ScriptBindings.Binding.Plan
import ScriptBindings.Binding.Scaffold
import ScriptBindings.Binding.Sources
import ScriptBindings.Bracket.Basic
import ScriptBindings.Bracket.Cut
import ScriptBindings.Bracket.Walk
import ScriptBindings.Command.Basic
import ScriptBindings.Command.Grammar
import ScriptBindings.Command.Output
import ScriptBindings.Command.Report
import ScriptBindings.Command.Run
import ScriptBindings.Data.Basic
import ScriptBindings.Data.JsonParser
import ScriptBindings.Data.JsonPrinter
import ScriptBindings.Data.JsonToken
import ScriptBindings.Data.TomlMoment
import ScriptBindings.Data.TomlNumber
import ScriptBindings.Data.TomlParser
import ScriptBindings.Data.TomlPrinter
import ScriptBindings.Data.TomlTable
import ScriptBindings.Data.TomlText
import ScriptBindings.Declaration.Basic
import ScriptBindings.Declaration.Comment
import ScriptBindings.Declaration.Diagnostic
import ScriptBindings.Declaration.ModulePath
import ScriptBindings.Declaration.Reader
import ScriptBindings.Declaration.SignatureParser
import ScriptBindings.Declaration.Statement
import ScriptBindings.Declaration.Tagged
import ScriptBindings.Discovery
import ScriptBindings.HostType
import ScriptBindings.Main
import ScriptBindings.Name.Casing
import ScriptBindings.Name.Pattern
import ScriptBindings.Proofs.Binding.Agreement
import ScriptBindings.Proofs.Binding.Collisions
import ScriptBindings.Proofs.Binding.Comments
import ScriptBindings.Proofs.Binding.Declarations
import ScriptBindings.Proofs.Binding.Files
import ScriptBindings.Proofs.Binding.Forwarding
import ScriptBindings.Proofs.Binding.Generics
import ScriptBindings.Proofs.Binding.HostNames
import ScriptBindings.Proofs.Binding.Independence
import ScriptBindings.Proofs.Binding.IntroducedUse
import ScriptBindings.Proofs.Binding.Literals
import ScriptBindings.Proofs.Binding.MethodNames
import ScriptBindings.Proofs.Binding.ParameterLists
import ScriptBindings.Proofs.Binding.Reserved
import ScriptBindings.Proofs.Binding.VoidTypes
import ScriptBindings.Proofs.Bracket.Balance
import ScriptBindings.Proofs.Bracket.Cutting
import ScriptBindings.Proofs.Bracket.Ends
import ScriptBindings.Proofs.Bracket.Faults
import ScriptBindings.Proofs.Bracket.Grouping
import ScriptBindings.Proofs.Bracket.Joining
import ScriptBindings.Proofs.Bracket.Layout
import ScriptBindings.Proofs.Bracket.Nesting
import ScriptBindings.Proofs.Bracket.Outside
import ScriptBindings.Proofs.Bracket.Partners
import ScriptBindings.Proofs.Bracket.Shape
import ScriptBindings.Proofs.Command.Convergence
import ScriptBindings.Proofs.Command.Foresight
import ScriptBindings.Proofs.Command.Untouched
import ScriptBindings.Proofs.Data.JsonRoundTrip
import ScriptBindings.Proofs.Data.JsonStrings
import ScriptBindings.Proofs.Data.Tabular
import ScriptBindings.Proofs.Data.TomlAssembly
import ScriptBindings.Proofs.Data.TomlReading
import ScriptBindings.Proofs.Data.TomlStatements
import ScriptBindings.Proofs.Data.TomlStrings
import ScriptBindings.Proofs.Data.TomlTables
import ScriptBindings.Proofs.Declaration.Accounting
import ScriptBindings.Proofs.Declaration.Attachment
import ScriptBindings.Proofs.Declaration.Causes
import ScriptBindings.Proofs.Declaration.CommentLayout
import ScriptBindings.Proofs.Declaration.CommentTransparency
import ScriptBindings.Proofs.Declaration.Division
import ScriptBindings.Proofs.Declaration.Entries
import ScriptBindings.Proofs.Declaration.Isolation
import ScriptBindings.Proofs.Declaration.LiteralAgreement
import ScriptBindings.Proofs.Declaration.Parsed
import ScriptBindings.Proofs.Declaration.Partition
import ScriptBindings.Proofs.Declaration.PhaseAgreement
import ScriptBindings.Proofs.Declaration.Reading
import ScriptBindings.Proofs.Declaration.Rendering
import ScriptBindings.Proofs.Declaration.ResultTypes
import ScriptBindings.Proofs.Declaration.RoundTrip
import ScriptBindings.Proofs.Declaration.Summaries
import ScriptBindings.Proofs.Declaration.Urls
import ScriptBindings.Proofs.Discovery.Pruning
import ScriptBindings.Proofs.Discovery.Search
import ScriptBindings.Proofs.HostType.Arrays
import ScriptBindings.Proofs.HostType.Fallback
import ScriptBindings.Proofs.HostType.Grouping
import ScriptBindings.Proofs.HostType.Origin
import ScriptBindings.Proofs.Name.Filling
import ScriptBindings.Proofs.Outcomes
import ScriptBindings.Proofs.Repetitions
import ScriptBindings.Proofs.Settings.Reading
import ScriptBindings.Proofs.Settings.RoundTrip
import ScriptBindings.Proofs.Text.Entities
import ScriptBindings.Proofs.Text.HostText
import ScriptBindings.Proofs.Text.Inclusion
import ScriptBindings.Proofs.Text.Layout
import ScriptBindings.Proofs.Text.Naming
import ScriptBindings.Proofs.Text.Offsets
import ScriptBindings.Proofs.Text.Replacing
import ScriptBindings.Proofs.Text.Trimming
import ScriptBindings.Proofs.TypeExpr.Composition
import ScriptBindings.Proofs.TypeExpr.Encoding
import ScriptBindings.Proofs.TypeExpr.Forms
import ScriptBindings.Proofs.TypeExpr.Identity
import ScriptBindings.Proofs.TypeExpr.Intersections
import ScriptBindings.Proofs.TypeExpr.Layout
import ScriptBindings.Proofs.TypeExpr.Legible
import ScriptBindings.Proofs.TypeExpr.Members
import ScriptBindings.Proofs.TypeExpr.Parsed
import ScriptBindings.Proofs.TypeExpr.Reading
import ScriptBindings.Proofs.TypeExpr.Refusal
import ScriptBindings.Proofs.TypeExpr.RoundTrip
import ScriptBindings.Proofs.TypeExpr.Spread
import ScriptBindings.Proofs.TypeExpr.Walks
import ScriptBindings.Settings.Basic
import ScriptBindings.Settings.Overrides
import ScriptBindings.Settings.Reader
import ScriptBindings.Settings.Writer
import ScriptBindings.SortedEntries
import ScriptBindings.Storage.Basic
import ScriptBindings.Storage.Node
import ScriptBindings.Storage.Path
import ScriptBindings.Storage.Tree
import ScriptBindings.Text.Affix
import ScriptBindings.Text.Blank
import ScriptBindings.Text.Case
import ScriptBindings.Text.Identifier
import ScriptBindings.Text.Letter
import ScriptBindings.Text.Measure
import ScriptBindings.Text.Replace
import ScriptBindings.Text.Xml
import ScriptBindings.TypeExpr.Basic
import ScriptBindings.TypeExpr.Form
import ScriptBindings.TypeExpr.Parser
import ScriptBindings.TypeExpr.Tagged
