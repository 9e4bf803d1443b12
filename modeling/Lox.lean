import Lox.Token.Dump
import Lox.Tree.Prefixed
import Lox.Session
import Lox.CommandLine
import Lox.Main
import Lox.Proofs.Grammar.Derivation
import Lox.Proofs.Grammar.Reading
import Lox.Proofs.Grammar.Soundness.Expression
import Lox.Proofs.Grammar.Soundness.Statement
import Lox.Proofs.Grammar.Completeness.Expression
import Lox.Proofs.Grammar.Completeness.Statement
import Lox.Proofs.Grammar.Dangling
import Lox.Proofs.Grammar.Acceptance
import Lox.Proofs.Grammar.Formed
import Lox.Proofs.Scoping.InStep
import Lox.Proofs.Scoping.Undefined
import Lox.Proofs.Scoping.Equivalence
import Lox.Proofs.Run.Steady
import Lox.Proofs.Tree.Paired
import Lox.Proofs.Grammar.Recovery
import Lox.Proofs.Binding.Paired
import Lox.Proofs.Run.Tandem
import Lox.Proofs.Session.Rejected
import Lox.Proofs.Session.Pieces
import Lox.Proofs.Binding.Occurrence
import Lox.Proofs.Binding.Rules
import Lox.Proofs.Run.Provenance
import Lox.Proofs.Session.Vetted
import Lox.Proofs.Run.Jumps
import Lox.Proofs.Run.Leap
import Lox.Proofs.Run.Landing
import Lox.Proofs.Session.Jumps
import Lox.Proofs.Binding.Family
import Lox.Proofs.Session.Inheritance
import Lox.Proofs.Grammar.Isolation
import Lox.Proofs.Grammar.Segments
import Lox.Proofs.Token.Place
import Lox.Proofs.Session.Lists
import Lox.Proofs.Session.Untrapped
import Lox.Proofs.Session.Truncated
import Lox.Proofs.Session.Printed
import Lox.Proofs.Session.Linked
import Lox.Proofs.Binding.Lexical
import Lox.Proofs.Grammar.Termination
import Lox.Proofs.Grammar.Violations
import Lox.Proofs.Scoping.ForLoop
import Lox.Proofs.Session.Initializers
import Lox.Proofs.Run.Saturated
import Lox.Proofs.Token.Spaced
import Lox.Proofs.Run.Environments
import Lox.Proofs.Session.Identities
import Lox.Proofs.Number.Unpacked
import Lox.Proofs.Number.Text
import Lox.Proofs.Number.Shortest
import Lox.Proofs.Number.Literal
import Lox.Proofs.Number.Numeral
import Lox.Proofs.Tree.Determined
import Lox.Proofs.Run.Equivariance
import Lox.Proofs.Session.Exchange
import Lox.Proofs.Session.Lines
