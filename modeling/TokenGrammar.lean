import TokenGrammar.Action
import TokenGrammar.Assembly
import TokenGrammar.Attempt
import TokenGrammar.Bindings
import TokenGrammar.Captures
import TokenGrammar.Configuration
import TokenGrammar.Configuration.Environment
import TokenGrammar.Context
import TokenGrammar.Cursor
import TokenGrammar.Definition
import TokenGrammar.Engine
import TokenGrammar.Entries
import TokenGrammar.Fault
import TokenGrammar.Grammar
import TokenGrammar.Grammar.UnboundNames
import TokenGrammar.Inspection
import TokenGrammar.Match
import TokenGrammar.Notice
import TokenGrammar.Number
import TokenGrammar.Pattern
import TokenGrammar.Pattern.Classes
import TokenGrammar.Pattern.Escapes
import TokenGrammar.Pattern.Matcher
import TokenGrammar.Pattern.Parser
import TokenGrammar.Pattern.Syntax
import TokenGrammar.Position
import TokenGrammar.Processor
import TokenGrammar.Proofs.Abreast
import TokenGrammar.Proofs.Adequacy
import TokenGrammar.Proofs.Algebra.Acting
import TokenGrammar.Proofs.Algebra.Conjunctions
import TokenGrammar.Proofs.Algebra.Delimiting
import TokenGrammar.Proofs.Algebra.Going
import TokenGrammar.Proofs.Algebra.Nesting
import TokenGrammar.Proofs.Algebra.Reversal
import TokenGrammar.Proofs.Algebra.Steadiness
import TokenGrammar.Proofs.Algebra.Unrolling
import TokenGrammar.Proofs.Assemblies
import TokenGrammar.Proofs.BackReferences
import TokenGrammar.Proofs.Building
import TokenGrammar.Proofs.Captured
import TokenGrammar.Proofs.Codes
import TokenGrammar.Proofs.Combination
import TokenGrammar.Proofs.Comparison
import TokenGrammar.Proofs.Composed
import TokenGrammar.Proofs.Composition
import TokenGrammar.Proofs.Concatenation
import TokenGrammar.Proofs.Confinement
import TokenGrammar.Proofs.Conservation
import TokenGrammar.Proofs.Counting
import TokenGrammar.Proofs.Cursors
import TokenGrammar.Proofs.Decomposition
import TokenGrammar.Proofs.Decoration
import TokenGrammar.Proofs.Derivation
import TokenGrammar.Proofs.Derivation.Completeness
import TokenGrammar.Proofs.Derivation.Soundness
import TokenGrammar.Proofs.DoubleNegation
import TokenGrammar.Proofs.ExcludedMiddle
import TokenGrammar.Proofs.Exclusive
import TokenGrammar.Proofs.Expressions.Classes
import TokenGrammar.Proofs.Expressions.Escapes
import TokenGrammar.Proofs.Expressions.Quantifiers
import TokenGrammar.Proofs.Expressions.Respelling
import TokenGrammar.Proofs.Expressions.Terms
import TokenGrammar.Proofs.Expressions.Ways
import TokenGrammar.Proofs.Expressions.Whole
import TokenGrammar.Proofs.Expressions.Wrapped
import TokenGrammar.Proofs.Expressions.Written
import TokenGrammar.Proofs.Extraction
import TokenGrammar.Proofs.Faithfulness
import TokenGrammar.Proofs.Framing
import TokenGrammar.Proofs.Fuel
import TokenGrammar.Proofs.Halting.Attempts
import TokenGrammar.Proofs.Halting.Rules
import TokenGrammar.Proofs.Halting.Runs
import TokenGrammar.Proofs.Indices
import TokenGrammar.Proofs.Inlining
import TokenGrammar.Proofs.Isolation
import TokenGrammar.Proofs.Laws.Around
import TokenGrammar.Proofs.Laws.Bodies
import TokenGrammar.Proofs.Laws.Boundaries
import TokenGrammar.Proofs.Laws.Lists
import TokenGrammar.Proofs.Laws.Repetitions
import TokenGrammar.Proofs.Layers
import TokenGrammar.Proofs.Leaves
import TokenGrammar.Proofs.Lexemes
import TokenGrammar.Proofs.Lexing
import TokenGrammar.Proofs.Likeness.Attempts
import TokenGrammar.Proofs.Likeness.Rules
import TokenGrammar.Proofs.Likeness.Runs
import TokenGrammar.Proofs.Lines
import TokenGrammar.Proofs.Matching
import TokenGrammar.Proofs.Naming
import TokenGrammar.Proofs.Notices
import TokenGrammar.Proofs.Origins
import TokenGrammar.Proofs.Outcome
import TokenGrammar.Proofs.Passes
import TokenGrammar.Proofs.Places
import TokenGrammar.Proofs.Precedence
import TokenGrammar.Proofs.Processing
import TokenGrammar.Proofs.Productive
import TokenGrammar.Proofs.Protection
import TokenGrammar.Proofs.Provenance.Rules
import TokenGrammar.Proofs.Provenance.Runs
import TokenGrammar.Proofs.Reach
import TokenGrammar.Proofs.Reading
import TokenGrammar.Proofs.Records
import TokenGrammar.Proofs.References.Agreement
import TokenGrammar.Proofs.References.Depiction
import TokenGrammar.Proofs.References.Graph
import TokenGrammar.Proofs.References.Order
import TokenGrammar.Proofs.References.Search
import TokenGrammar.Proofs.Refinement
import TokenGrammar.Proofs.Rejection
import TokenGrammar.Proofs.Representation
import TokenGrammar.Proofs.Resolvers
import TokenGrammar.Proofs.Returns
import TokenGrammar.Proofs.Rounding
import TokenGrammar.Proofs.Safety
import TokenGrammar.Proofs.Segments
import TokenGrammar.Proofs.Separators
import TokenGrammar.Proofs.Shadows
import TokenGrammar.Proofs.Sharing
import TokenGrammar.Proofs.Shifting
import TokenGrammar.Proofs.Shortening.Attempts
import TokenGrammar.Proofs.Shortening.Loops
import TokenGrammar.Proofs.Shortening.Rules
import TokenGrammar.Proofs.Shortening.Runs
import TokenGrammar.Proofs.Soundness
import TokenGrammar.Proofs.Span
import TokenGrammar.Proofs.Splitting
import TokenGrammar.Proofs.Stateful
import TokenGrammar.Proofs.Subsumption
import TokenGrammar.Proofs.Suffixes
import TokenGrammar.Proofs.Surroundings
import TokenGrammar.Proofs.Tables
import TokenGrammar.Proofs.Tracing
import TokenGrammar.Proofs.Transparency
import TokenGrammar.Proofs.Unbound
import TokenGrammar.Proofs.Undivided
import TokenGrammar.Proofs.Ungrouped
import TokenGrammar.Proofs.Unordered
import TokenGrammar.Proofs.Variables
import TokenGrammar.Proofs.Warnings
import TokenGrammar.Proofs.Wrapping
import TokenGrammar.Reader
import TokenGrammar.Rule.Basic
import TokenGrammar.Rule.Build
import TokenGrammar.Rule.Mentions
import TokenGrammar.Rule.Run
import TokenGrammar.Rule.Store
import TokenGrammar.Rule.Surroundings
import TokenGrammar.Stream
import TokenGrammar.Text.Basic
import TokenGrammar.Text.Blank
import TokenGrammar.Text.CaseData
import TokenGrammar.Text.LetterCase
import TokenGrammar.Text.Quoted
import TokenGrammar.Token
import TokenGrammar.TokenRecord
import TokenGrammar.TokenType
import TokenGrammar.Value
import TokenGrammar.Value.Inheritance
