import SparqlModel.Calendar.Date
import SparqlModel.Calendar.Moment
import SparqlModel.Cardinality
import SparqlModel.CommandLine.Arguments
import SparqlModel.CommandLine.Run
import SparqlModel.CommandLine.Suggestion
import SparqlModel.Config.BlankKeys
import SparqlModel.Config.Error
import SparqlModel.Config.Files
import SparqlModel.Config.QuerySpec
import SparqlModel.Config.Session
import SparqlModel.Config.Tree
import SparqlModel.Config.Workspace
import SparqlModel.Event
import SparqlModel.Graph.Basic
import SparqlModel.Graph.Builder
import SparqlModel.Graph.Triple
import SparqlModel.Index.Ancestry
import SparqlModel.Index.Basic
import SparqlModel.Index.BlankTypes
import SparqlModel.Main
import SparqlModel.Model
import SparqlModel.Number.Binary64
import SparqlModel.Number.Shortest
import SparqlModel.Pattern.Draft
import SparqlModel.Pattern.Node
import SparqlModel.Pattern.Options
import SparqlModel.Pattern.Where
import SparqlModel.Problem
import SparqlModel.Query.Basic
import SparqlModel.Query.Prefixes
import SparqlModel.Record.Field
import SparqlModel.Record.Graph
import SparqlModel.Record.Issue
import SparqlModel.Record.Options
import SparqlModel.Record.Whole
import SparqlModel.Settings
import SparqlModel.Table
import SparqlModel.Term.Literal
import SparqlModel.Term.Uri
import SparqlModel.Text.Base64
import SparqlModel.Text.Blank
import SparqlModel.Text.Control
import SparqlModel.Text.Digit
import SparqlModel.Text.Printable
import SparqlModel.Text.Quoted
import SparqlModel.Text.Range
import SparqlModel.Text.Split
import SparqlModel.Text.Utf8
import SparqlModel.Text.Word
import SparqlModel.Value.Basic
import SparqlModel.Value.Display
import SparqlModel.Value.Knot
import SparqlModel.Value.Members
import SparqlModel.Yaml.Alias
import SparqlModel.Yaml.Cursor
import SparqlModel.Yaml.Directive
import SparqlModel.Yaml.Document
import SparqlModel.Yaml.Handle
import SparqlModel.Yaml.Kind
import SparqlModel.Yaml.Merge
import SparqlModel.Yaml.Net
import SparqlModel.Yaml.Node
import SparqlModel.Yaml.Property
import SparqlModel.Yaml.Reading
import SparqlModel.Yaml.ScalarText
import SparqlModel.Yaml.Source
import SparqlModel.Yaml.Stamp
import SparqlModel.Yaml.Token
import SparqlModel.Proofs.Names
import SparqlModel.Proofs.Lookup
import SparqlModel.Proofs.Plan
import SparqlModel.Proofs.Drafting
import SparqlModel.Proofs.PlainNames
import SparqlModel.Proofs.Coverage
import SparqlModel.Proofs.Lines
import SparqlModel.Proofs.LabelScope
import SparqlModel.Proofs.Ownership
import SparqlModel.Proofs.Trail
import SparqlModel.Proofs.Route
import SparqlModel.Proofs.Expansion
import SparqlModel.Proofs.Selection
import SparqlModel.Proofs.TypeTriples
import SparqlModel.Proofs.Freshness
import SparqlModel.Proofs.Visits
import SparqlModel.Proofs.HopClasses
import SparqlModel.Proofs.WrittenVariables
import SparqlModel.Proofs.OptionalVariables
import SparqlModel.Proofs.Connection
import SparqlModel.Proofs.Review
import SparqlModel.Proofs.Leaves
import SparqlModel.Proofs.NodeClasses
import SparqlModel.Proofs.UnknownNames
import SparqlModel.Proofs.RequestOrder
import SparqlModel.Proofs.Layout
import SparqlModel.Proofs.GroupedLines
import SparqlModel.Proofs.TypeLines
import SparqlModel.Proofs.NameStarts
import SparqlModel.Proofs.Declarations
import SparqlModel.Proofs.Namespaces
import SparqlModel.Proofs.TextParts
import SparqlModel.Proofs.KeyLines
import SparqlModel.Proofs.PredicateKeys
import SparqlModel.Proofs.Registration
import SparqlModel.Proofs.LiteralForms
import SparqlModel.Proofs.Encoding
import SparqlModel.Proofs.Constraints
import SparqlModel.Proofs.FileContents
import SparqlModel.Proofs.Keeping
import SparqlModel.Proofs.Ancestors
import SparqlModel.Proofs.SelfJoins
import SparqlModel.Proofs.SharedVariables
import SparqlModel.Proofs.PropertyPaths
import SparqlModel.Proofs.BuiltGraphs
import SparqlModel.Proofs.TripleNames
import SparqlModel.Proofs.BoundParameters
