import QuizVariants.Main
import QuizVariants.Problem.Source
import QuizVariants.Registry
import QuizVariants.Proofs.Batch.Filling
import QuizVariants.Proofs.Batch.Generation
import QuizVariants.Proofs.Expr.Names
import QuizVariants.Proofs.Expr.Writing
import QuizVariants.Proofs.Expr.Completeness
import QuizVariants.Proofs.Table.Entries
import QuizVariants.Proofs.Variant.Declaration
import QuizVariants.Proofs.Variant.Resolution
import QuizVariants.Proofs.Variant.Parameters
import QuizVariants.Proofs.Expr.Identifier
import QuizVariants.Proofs.Template.Rendering
import QuizVariants.Proofs.Variant.Absence
import QuizVariants.Proofs.Text.Layout
import QuizVariants.Proofs.Literal.Quoting
import QuizVariants.Proofs.Literal.Division
import QuizVariants.Proofs.Decimal.Digits
import QuizVariants.Proofs.Literal.Scalars
import QuizVariants.Proofs.Literal.RoundTrip
import QuizVariants.Proofs.Section.Comment
import QuizVariants.Proofs.Section.Body
import QuizVariants.Proofs.Section.Entries
import QuizVariants.Proofs.Section.Blocks
import QuizVariants.Proofs.Section.Items
import QuizVariants.Proofs.Problem.Layout
import QuizVariants.Proofs.Problem.Assembly
import QuizVariants.Proofs.Problem.Written
import QuizVariants.Proofs.Problem.RoundTrip
import QuizVariants.Proofs.Problem.Rereading
import QuizVariants.Proofs.Expr.Exactness
import QuizVariants.Proofs.Algebra.Faithfulness
import QuizVariants.Proofs.Decimal.Conversion
import QuizVariants.Proofs.Decimal.Notation
import QuizVariants.Proofs.Expr.Dependence
import QuizVariants.Proofs.Literal.Floats
import QuizVariants.Proofs.Section.Arrangement
import QuizVariants.Proofs.Table.Bindings
import QuizVariants.Proofs.Problem.Order
import QuizVariants.Proofs.Template.Braces
import QuizVariants.Proofs.Template.Scan
import QuizVariants.Proofs.Markup.Passes
import QuizVariants.Proofs.Markup.Placeholders
import QuizVariants.Proofs.Rational.Canonical
import QuizVariants.Proofs.Expr.Determinism
import QuizVariants.Proofs.Rational.Overflow
import QuizVariants.Proofs.Template.Agreement
import QuizVariants.Proofs.Variant.Reordering
import QuizVariants.Proofs.Template.Substitution
import QuizVariants.Proofs.Template.Openings
import QuizVariants.Proofs.Problem.Script
import QuizVariants.Proofs.Problem.Dialects
import QuizVariants.Proofs.Machine.Evaluation
import QuizVariants.Proofs.Rational.Remainder
import QuizVariants.Proofs.Variant.Strings
import QuizVariants.Proofs.Template.Concatenation
import QuizVariants.Proofs.Library.Sampling
import QuizVariants.Proofs.Variant.Rendering
import QuizVariants.Proofs.Literal.Groups
import QuizVariants.Proofs.Markup.References
import QuizVariants.Proofs.Script.Assignments
import QuizVariants.Proofs.Script.Execution
import QuizVariants.Proofs.Expr.Bounds
import QuizVariants.Proofs.Library.Rounding
import QuizVariants.Proofs.Decimal.Order
import QuizVariants.Proofs.Library.Comparison
import QuizVariants.Proofs.Expr.Tokens
import QuizVariants.Proofs.Expr.Height
import QuizVariants.Proofs.Expr.Depth
import QuizVariants.Proofs.Literal.Spellings
import QuizVariants.Proofs.Section.Quotes
import QuizVariants.Proofs.Section.Remains
import QuizVariants.Proofs.Section.Layouts
import QuizVariants.Proofs.Rational.Neighbours
import QuizVariants.Proofs.Rational.Squares
import QuizVariants.Proofs.Library.Fractions
import QuizVariants.Proofs.Variant.Numbers
import QuizVariants.Proofs.Library.Selection
import QuizVariants.Proofs.Expr.Sets
import QuizVariants.Proofs.Variant.Shuffling
import QuizVariants.Proofs.Library.Grouping
import QuizVariants.Proofs.Literal.Joining
import QuizVariants.Proofs.Section.QuotedLines
