import PathDoc.Accessor
import PathDoc.Batch
import PathDoc.Collection
import PathDoc.Config.Basic
import PathDoc.Config.Reader
import PathDoc.Decimal.Layout
import PathDoc.Decimal.Shortest
import PathDoc.Decimal.Whole
import PathDoc.Document.Basic
import PathDoc.Document.Equality
import PathDoc.Document.Json
import PathDoc.Engine
import PathDoc.Entries
import PathDoc.Error
import PathDoc.Find
import PathDoc.Flat.Dict
import PathDoc.Flat.Encoding
import PathDoc.Flat.Flatten
import PathDoc.Flat.Marker
import PathDoc.Flat.Unflatten
import PathDoc.Json.Number
import PathDoc.Json.Printer
import PathDoc.Json.Reader
import PathDoc.Json.Value
import PathDoc.Match.Approximate
import PathDoc.Match.Text
import PathDoc.Match.Value
import PathDoc.Navigator
import PathDoc.Pairs
import PathDoc.Path.Parser
import PathDoc.Path.Surface
import PathDoc.Path.Text
import PathDoc.Path.Token
import PathDoc.Pipeline
import PathDoc.Position
import PathDoc.Proofs.Document.Addresses
import PathDoc.Proofs.Document.Congruence
import PathDoc.Proofs.Document.Distinct
import PathDoc.Proofs.Document.Equivalence
import PathDoc.Proofs.Document.Nodes
import PathDoc.Proofs.Document.Reordering
import PathDoc.Proofs.Find.Agreement
import PathDoc.Proofs.Find.PlainSets
import PathDoc.Proofs.Find.Replacement
import PathDoc.Proofs.Find.Sets
import PathDoc.Proofs.Flat.Contents
import PathDoc.Proofs.Flat.RoundTrip
import PathDoc.Proofs.Flat.Tree
import PathDoc.Proofs.Path.RoundTrip
import PathDoc.Proofs.Traversal.Listing
import PathDoc.Proofs.Traversal.Orders
import PathDoc.Proofs.Traversal.Replaced
import PathDoc.Proofs.Traversal.Subtrees
import PathDoc.Proofs.Write.Descend
import PathDoc.Proofs.Write.Frame
import PathDoc.Proofs.Write.Members
import PathDoc.Proofs.Write.Sequences
import PathDoc.Query.Eval
import PathDoc.Query.Expr
import PathDoc.Query.Parser
import PathDoc.Regex.Bytes
import PathDoc.Regex.CharSet
import PathDoc.Regex.Footprint
import PathDoc.Regex.Parser
import PathDoc.Regex.Pattern
import PathDoc.Regex.Program
import PathDoc.Step.Basic
import PathDoc.Step.Resolve
import PathDoc.Text.Alphabetic
import PathDoc.Text.Blank
import PathDoc.Text.Case
import PathDoc.Text.Numeric
import PathDoc.Text.Offset
import PathDoc.Text.Quoted
import PathDoc.Text.Ranges
import PathDoc.Text.Scan
import PathDoc.Text.Word
import PathDoc.Traversal
import PathDoc.Traversal.Rebuild
import PathDoc.Write
import PathDoc.Proofs.Path.Grammar
import PathDoc.Proofs.Write.Uniqueness
import PathDoc.Proofs.Flat.Lookup
import PathDoc.Proofs.Flat.Shadowing
import PathDoc.Proofs.Document.Counting
import PathDoc.Proofs.Flat.Encoding
import PathDoc.Proofs.Flat.Lookalikes
import PathDoc.Proofs.Collection.Fusion
import PathDoc.Proofs.Write.InPlace
import PathDoc.Proofs.Step.Failures
import PathDoc.Proofs.Query.Grammar
import PathDoc.Proofs.Collection.History
import PathDoc.Proofs.Traversal.Visits
import PathDoc.Proofs.Find.Removal
import PathDoc.Proofs.Query.Operands
import PathDoc.Proofs.Query.RoundTrip
import PathDoc.Proofs.Find.Topmost
import PathDoc.Proofs.Find.Renewed
import PathDoc.Proofs.Match.Occurrences
import PathDoc.Proofs.Write.TakenOut
import PathDoc.Proofs.Path.Segments
import PathDoc.Proofs.Flat.Leaves
import PathDoc.Proofs.Flat.Acceptance
import PathDoc.Proofs.Write.Independent
import PathDoc.Proofs.Flat.Partition
import PathDoc.Proofs.Document.PartialEquivalence
import PathDoc.Proofs.Find.Rebuilt
import PathDoc.Proofs.Path.Joined
import PathDoc.Proofs.Path.Stops
import PathDoc.Proofs.Collection.Slices
import PathDoc.Proofs.Double.Integers
import PathDoc.Proofs.Query.Comparison
import PathDoc.Proofs.Collection.Groups
import PathDoc.Proofs.Document.Entries
import PathDoc.Proofs.Write.ReplaceAt
import PathDoc.Proofs.Write.Conserved
import PathDoc.Proofs.Step.Renamed
import PathDoc.Proofs.Step.ListedFirst
import PathDoc.Proofs.Step.Moved
import PathDoc.Proofs.Step.Skipping
import PathDoc.Proofs.Query.Refused
import PathDoc.Proofs.Query.Variable
import PathDoc.Proofs.Query.Notation
import PathDoc.Proofs.Step.ChangedOnly
import PathDoc.Proofs.Pipeline.Nested
import PathDoc.Proofs.Text.Hits
import PathDoc.Proofs.Regex.Captures
import PathDoc.Proofs.Match.Stretches
import PathDoc.Proofs.Regex.Escaped
import PathDoc.Proofs.Match.Literals
import PathDoc.Proofs.Match.Distance
import PathDoc.Proofs.Write.Attributes
import PathDoc.Proofs.Decimal.Digits
import PathDoc.Proofs.Text.Folding
import PathDoc.Proofs.Regex.Caseless
import PathDoc.Proofs.Match.ZeroDistance
import PathDoc.Proofs.Json.Numbers
import PathDoc.Proofs.Json.RoundTrip
import PathDoc.Proofs.Document.Serialized
import PathDoc.Proofs.Read.KeptPath
import PathDoc.Proofs.Pipeline.Names
