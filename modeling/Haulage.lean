import Haulage.Calendar.Date
import Haulage.Calendar.Iso
import Haulage.Calendar.Moment
import Haulage.Context
import Haulage.Formula.Choice
import Haulage.Formula.Datum
import Haulage.Formula.Evaluation
import Haulage.Formula.Fault
import Haulage.Formula.Function
import Haulage.Formula.Lexer
import Haulage.Formula.Literal
import Haulage.Formula.Nesting
import Haulage.Formula.Parser
import Haulage.Formula.Preparation
import Haulage.Formula.Syntax
import Haulage.Formula.SyntaxFault
import Haulage.Formula.Token
import Haulage.Formula.Tree
import Haulage.Money
import Haulage.Number.Basic
import Haulage.Number.Decimal
import Haulage.Number.Exact
import Haulage.Number.Notation
import Haulage.Number.Power
import Haulage.Number.Reader
import Haulage.Number.Shortest
import Haulage.Report.Evaluation
import Haulage.Report.Stages
import Haulage.Request.Endpoint
import Haulage.Request.Field
import Haulage.Settings
import Haulage.Shorthand.Call
import Haulage.Shorthand.Expansion
import Haulage.Shorthand.Rule
import Haulage.Shorthand.Tier
import Haulage.Simulation
import Haulage.Sorting
import Haulage.Substitution
import Haulage.Tariff.Basic
import Haulage.Tariff.Route
import Haulage.Text.Basic
import Haulage.Text.Blank
import Haulage.Text.CaseFold
import Haulage.Text.Display
import Haulage.Text.Letter
import Haulage.Text.Numeral
import Haulage.Text.Printable
import Haulage.Text.Search
import Haulage.Text.Word
import Haulage.Validation.Analysis
import Haulage.Validation.Limits
import Haulage.Validation.Names
import Haulage.Validation.Verdict
import Haulage.Value.Arithmetic
import Haulage.Value.Basic
import Haulage.Value.Conversion
import Haulage.Value.Display
import Haulage.Value.Fault
import Haulage.Value.Items
import Haulage.Value.Order
import Haulage.Value.Statistics
import Haulage.Proofs.Formula.Acceptance
import Haulage.Proofs.Formula.Choice
import Haulage.Proofs.Formula.ChoiceText
import Haulage.Proofs.Formula.Choiceless
import Haulage.Proofs.Formula.Cutting
import Haulage.Proofs.Formula.Datum
import Haulage.Proofs.Formula.Form
import Haulage.Proofs.Formula.Grammar
import Haulage.Proofs.Formula.Inlining
import Haulage.Proofs.Formula.Lexing
import Haulage.Proofs.Formula.Literal
import Haulage.Proofs.Formula.Numeral
import Haulage.Proofs.Formula.Outcome
import Haulage.Proofs.Formula.Parsing
import Haulage.Proofs.Formula.Stretch
import Haulage.Proofs.Formula.ZeroSign
import Haulage.Proofs.Money
import Haulage.Proofs.Number.Nearest
import Haulage.Proofs.Number.Order
import Haulage.Proofs.Number.Packing
import Haulage.Proofs.Number.Reading
import Haulage.Proofs.Number.Rounding
import Haulage.Proofs.Number.Written
import Haulage.Proofs.Number.ZeroSign
import Haulage.Proofs.Report.Alternative
import Haulage.Proofs.Report.DefaultFormula
import Haulage.Proofs.Report.Strict
import Haulage.Proofs.Report.Trail
import Haulage.Proofs.Shorthand.Conditional
import Haulage.Proofs.Shorthand.Grouping
import Haulage.Proofs.Shorthand.Head
import Haulage.Proofs.Shorthand.Pass
import Haulage.Proofs.Shorthand.Rounding
import Haulage.Proofs.Shorthand.Site
import Haulage.Proofs.Shorthand.TieredRate
import Haulage.Proofs.Simulation
import Haulage.Proofs.Sorting
import Haulage.Proofs.Substitution
import Haulage.Proofs.Tariff.Cents
import Haulage.Proofs.Tariff.Toll
import Haulage.Proofs.Text.Class
import Haulage.Proofs.Text.Search
import Haulage.Proofs.Value.Scalar
import Haulage.Proofs.Value.ZeroSign
import Haulage.Proofs.Substitution.Rewriting
import Haulage.Proofs.Substitution.Arity
import Haulage.Proofs.Text.Words
import Haulage.Proofs.Shorthand.Words
import Haulage.Proofs.Substitution.Names
import Haulage.Proofs.Validation.Names
import Haulage.Proofs.Formula.Printing
import Haulage.Proofs.Request.Answer
import Haulage.Proofs.Request.Kilometer
import Haulage.Proofs.Request.Reading
import Haulage.Proofs.Shorthand.Twin
import Haulage.Proofs.Shorthand.Figure
import Haulage.Proofs.Shorthand.Content
import Haulage.Proofs.Shorthand.Lockstep
import Haulage.Proofs.Validation.Year
import Haulage.Proofs.Number.Limit
import Haulage.Proofs.Tariff.Finite
import Haulage.Proofs.Shorthand.Average
import Haulage.Proofs.Shorthand.Replacement
import Haulage.Proofs.Shorthand.Load
import Haulage.Proofs.Shorthand.Settling
import Haulage.Proofs.Shorthand.Template
import Haulage.Proofs.Shorthand.Quotation
import Haulage.Proofs.Shorthand.Exposure
import Haulage.Proofs.Substitution.Rejection
import Haulage.Proofs.Substitution.Numbers
import Haulage.Proofs.Validation.Announced
import Haulage.Proofs.Tariff.Mention
import Haulage.Proofs.Tariff.Agreement
import Haulage.Proofs.Substitution.Order
import Haulage.Proofs.Formula.Layout
import Haulage.Proofs.Formula.Exchange
import Haulage.Proofs.Formula.ChoiceValue
import Haulage.Proofs.Shorthand.Balance
import Haulage.Proofs.Formula.Scanning
import Haulage.Proofs.Number.Monotone
import Haulage.Proofs.Formula.Rounding
import Haulage.Proofs.Number.Shortest
import Haulage.Proofs.Money.Soundness
import Haulage.Proofs.Formula.ChoiceRounds
import Haulage.Proofs.Number.Decimal
import Haulage.Proofs.Value.Display
import Haulage.Proofs.Calendar.Instant
import Haulage.Proofs.Formula.Readiness
import Haulage.Proofs.Context
import Haulage.Proofs.Formula.ReadBack
import Haulage.Proofs.Shorthand.Splitting
import Haulage.Proofs.Shorthand.Span
