import N3Rules.Text.Piece
import N3Rules.Text.Layout
import N3Rules.Text.RuleText
import N3Rules.Term.Written
import N3Rules.Term.Read
import N3Rules.Document
import N3Rules.Engine.Summary
import N3Rules.Main
import N3Rules.Proofs.Bindings
import N3Rules.Proofs.Match
import N3Rules.Proofs.FactBase
import N3Rules.Proofs.Insertions
import N3Rules.Proofs.Solutions
import N3Rules.Proofs.Join
import N3Rules.Proofs.Deferral
import N3Rules.Proofs.Domain
import N3Rules.Proofs.Filter
import N3Rules.Proofs.Instances
import N3Rules.Proofs.Guesses
import N3Rules.Proofs.Confirmation
import N3Rules.Proofs.Substitution
import N3Rules.Proofs.Text.Woven
import N3Rules.Proofs.Text.Cutting
import N3Rules.Proofs.Text.Pieces
import N3Rules.Proofs.Text.Compact
import N3Rules.Proofs.Text.Groups
import N3Rules.Proofs.Text.Braces
import N3Rules.Proofs.Text.Pairs
import N3Rules.Proofs.Text.RuleBlocks
import N3Rules.Proofs.Text.Balanced
import N3Rules.Proofs.Text.Conserved
import N3Rules.Proofs.Text.Rejoined
import N3Rules.Proofs.Text.Origin
import N3Rules.Proofs.Text.Bytes
import N3Rules.Proofs.Text.Cursors
import N3Rules.Proofs.Notation.Writable
import N3Rules.Proofs.Notation.Reading
import N3Rules.Proofs.Notation.RoundTrip
import N3Rules.Proofs.Notation.Keys
import N3Rules.Proofs.Run.Reached
import N3Rules.Proofs.Run.Derivation
import N3Rules.Proofs.Run.Closure
import N3Rules.Proofs.Run.Monotone
import N3Rules.Proofs.Run.Termination
import N3Rules.Proofs.Run.Layers
import N3Rules.Proofs.Run.Registry
import N3Rules.Proofs.Engine.Held
import N3Rules.Proofs.Engine.Notices
import N3Rules.Proofs.Engine.Subscribers
import N3Rules.Proofs.Engine.Plugins
import N3Rules.Proofs.Engine.Course
import N3Rules.Proofs.Engine.Lifecycle
import N3Rules.Proofs.Engine.Registrations
import N3Rules.Proofs.Notation.Sentences
import N3Rules.Proofs.Notation.References
import N3Rules.Proofs.Notation.Implications
import N3Rules.Proofs.Notation.Gaps
import N3Rules.Proofs.Notation.Spelling
import N3Rules.Proofs.Notation.Atoms
import N3Rules.Proofs.Notation.Alignment
import N3Rules.Proofs.Notation.Separation
import N3Rules.Proofs.Notation.Documents
import N3Rules.Proofs.Notation.Scopes
import N3Rules.Proofs.Notation.Passages
import N3Rules.Proofs.Notation.Directives
import N3Rules.Proofs.Notation.Undotted
import N3Rules.Proofs.Notation.Checked
import N3Rules.Proofs.Notation.Verbatim
import N3Rules.Proofs.Notation.Brackets
import N3Rules.Proofs.Engine.Lines
import N3Rules.Proofs.CommandLine
