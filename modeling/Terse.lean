import Terse.Config.Basic
import Terse.Config.Contents
import Terse.Config.File
import Terse.Edit.Apply
import Terse.Edit.Basic
import Terse.Edit.Items
import Terse.Grammar.Expr
import Terse.Grammar.Module
import Terse.Grammar.Pattern
import Terse.Grammar.Precedence
import Terse.Grammar.Reading
import Terse.Lint.Analysis
import Terse.Lint.Simplifier
import Terse.Lint.Site
import Terse.Lookup
import Terse.Name
import Terse.Number.Decimal
import Terse.Number.Double
import Terse.Number.Shortest
import Terse.Project.Core
import Terse.Project.Index
import Terse.Project.Interface
import Terse.Rule.Basic
import Terse.Rule.Boolean
import Terse.Rule.Catalog
import Terse.Rule.Code
import Terse.Rule.Collection
import Terse.Rule.Conditional
import Terse.Rule.Effect
import Terse.Rule.Family
import Terse.Rule.Finding
import Terse.Rule.Function
import Terse.Rule.List
import Terse.Rule.Number
import Terse.Rule.Record
import Terse.Rule.String
import Terse.Rule.Wrapped
import Terse.Text.CharacterSet
import Terse.Text.Letter
import Terse.Text.LetterTable
import Terse.Text.Location
import Terse.Text.Source
import Terse.Text.Visible
import Terse.Text.VisibleTable
import Terse.Token.Basic
import Terse.Token.Lexeme
import Terse.Token.Scan
import Terse.Toml.Document
import Terse.Toml.Scalar
import Terse.Toml.Text
import Terse.Tree.Expr
import Terse.Tree.Literal
import Terse.Tree.Module
import Terse.Tree.Pattern
import Terse.View.Call
import Terse.View.Chain
import Terse.View.Context
import Terse.View.Equality
import Terse.View.Function
import Terse.View.Literal
import Terse.Proofs.Config.Code
import Terse.Proofs.Config.File
import Terse.Proofs.Config.TypeNames
import Terse.Proofs.Config.TypePattern
import Terse.Proofs.Edit.Apart
import Terse.Proofs.Edit.Fix
import Terse.Proofs.Edit.Frame
import Terse.Proofs.Edit.Place
import Terse.Proofs.Edit.Refusal
import Terse.Proofs.Edit.Removal
import Terse.Proofs.Edit.Rewriting
import Terse.Proofs.Edit.Splice
import Terse.Proofs.Grammar.Down
import Terse.Proofs.Grammar.ExprDown
import Terse.Proofs.Grammar.ExprReadingBack
import Terse.Proofs.Grammar.ExprStanding
import Terse.Proofs.Grammar.Extracting
import Terse.Proofs.Grammar.Flattening
import Terse.Proofs.Grammar.Integer
import Terse.Proofs.Grammar.Module
import Terse.Proofs.Grammar.ModuleDown
import Terse.Proofs.Grammar.ModuleStanding
import Terse.Proofs.Grammar.Nested
import Terse.Proofs.Grammar.PatternDown
import Terse.Proofs.Grammar.PatternReadingBack
import Terse.Proofs.Grammar.PatternStanding
import Terse.Proofs.Grammar.Precedence
import Terse.Proofs.Grammar.Ranges
import Terse.Proofs.Grammar.Reading
import Terse.Proofs.Grammar.ReadingBack
import Terse.Proofs.Grammar.Separators
import Terse.Proofs.Grammar.Standing
import Terse.Proofs.Lint.Analysis
import Terse.Proofs.Lint.Arguments
import Terse.Proofs.Lint.Brackets
import Terse.Proofs.Lint.DocumentOrder
import Terse.Proofs.Lint.Highlight
import Terse.Proofs.Lint.Imports
import Terse.Proofs.Lint.Node
import Terse.Proofs.Lint.Overlap
import Terse.Proofs.Lint.Parentheses
import Terse.Proofs.Lint.Scope
import Terse.Proofs.Lint.Shadowing
import Terse.Proofs.Lint.Site
import Terse.Proofs.Lint.Spelling
import Terse.Proofs.Lint.TwinSites
import Terse.Proofs.Lint.Walk
import Terse.Proofs.Number.Digits
import Terse.Proofs.Number.Rounding
import Terse.Proofs.Outcome
import Terse.Proofs.Project.Index
import Terse.Proofs.Project.Lookup
import Terse.Proofs.Project.Qualifying
import Terse.Proofs.Project.Tables
import Terse.Proofs.Rule.Agreement
import Terse.Proofs.Rule.Alike
import Terse.Proofs.Rule.Arguments
import Terse.Proofs.Rule.Arity
import Terse.Proofs.Rule.Boolean
import Terse.Proofs.Rule.CallHighlight
import Terse.Proofs.Rule.CallMirrors
import Terse.Proofs.Rule.Catalog
import Terse.Proofs.Rule.CatchAll
import Terse.Proofs.Rule.ChainMirrors
import Terse.Proofs.Rule.Collection
import Terse.Proofs.Rule.Conditional
import Terse.Proofs.Rule.Effect
import Terse.Proofs.Rule.Exhaustive
import Terse.Proofs.Rule.Family
import Terse.Proofs.Rule.Finding
import Terse.Proofs.Rule.Function
import Terse.Proofs.Rule.IntegerVerdicts
import Terse.Proofs.Rule.List
import Terse.Proofs.Rule.ListMeaning
import Terse.Proofs.Rule.Meaning
import Terse.Proofs.Rule.Merging
import Terse.Proofs.Rule.Mirror
import Terse.Proofs.Rule.NodeMirrors
import Terse.Proofs.Rule.Number
import Terse.Proofs.Rule.Persistence
import Terse.Proofs.Rule.RuleMirrors
import Terse.Proofs.Rule.SequenceMirrors
import Terse.Proofs.Rule.String
import Terse.Proofs.Rule.Surplus
import Terse.Proofs.Rule.Verdict
import Terse.Proofs.Rule.Wrapped
import Terse.Proofs.Text.Bytes
import Terse.Proofs.Text.Gaps
import Terse.Proofs.Text.Letter
import Terse.Proofs.Text.Line
import Terse.Proofs.Text.LineTable
import Terse.Proofs.Text.Order
import Terse.Proofs.Text.Position
import Terse.Proofs.Token.Ahead
import Terse.Proofs.Token.Boundary
import Terse.Proofs.Token.Comment
import Terse.Proofs.Token.Depth
import Terse.Proofs.Token.Down
import Terse.Proofs.Token.Excerpt
import Terse.Proofs.Token.Front
import Terse.Proofs.Token.Gap
import Terse.Proofs.Token.Integer
import Terse.Proofs.Token.Lookahead
import Terse.Proofs.Token.Partition
import Terse.Proofs.Token.Reach
import Terse.Proofs.Token.Reference
import Terse.Proofs.Token.Regular
import Terse.Proofs.Token.Tidy
import Terse.Proofs.Tree.Binding
import Terse.Proofs.Tree.Decidable
import Terse.Proofs.Tree.Down
import Terse.Proofs.Tree.Erasure
import Terse.Proofs.Tree.Nesting
import Terse.Proofs.Tree.Node
import Terse.Proofs.Tree.Order
import Terse.Proofs.Tree.Twin
import Terse.Proofs.Tree.Unplaced
import Terse.Proofs.Tree.Written
import Terse.Proofs.View.Agreement
import Terse.Proofs.View.Call
import Terse.Proofs.View.Canonical
import Terse.Proofs.View.Chain
import Terse.Proofs.View.Composition
import Terse.Proofs.View.Equality
import Terse.Proofs.View.Erasure
import Terse.Proofs.View.Keeping
import Terse.Proofs.View.ListEvaluation
import Terse.Proofs.View.ListMeaning
import Terse.Proofs.View.Meaning
import Terse.Proofs.View.Naming
import Terse.Proofs.View.Shape
import Terse.Proofs.View.Shortening
import Terse.Proofs.View.Spine
import Terse.Proofs.View.Twin
