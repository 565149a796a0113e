import CommandScript.Interpreter.Run
import CommandScript.Routine
import CommandScript.Statement.Source
import CommandScript.Proofs.Statement.Passage
import CommandScript.Proofs.Statement.Token
import CommandScript.Proofs.Statement.Lexing
import CommandScript.Proofs.Statement.Grammar
import CommandScript.Proofs.Statement.Derivation
import CommandScript.Proofs.Signature.Default
import CommandScript.Proofs.Signature.Lexing
import CommandScript.Proofs.Signature.Spelling
import CommandScript.Proofs.Signature.Compiled
import CommandScript.Proofs.Vocabulary.TypeTable
import CommandScript.Proofs.Signature.RoundTrip
import CommandScript.Proofs.Interpreter.Events
import CommandScript.Proofs.Statement.Joined
import CommandScript.Proofs.Interpreter.ReadAhead
import CommandScript.Proofs.Interpreter.Refinement
import CommandScript.Proofs.Interpreter.Transaction
import CommandScript.Proofs.Binding.Conforms
import CommandScript.Proofs.Statement.Reachable
import CommandScript.Proofs.Vocabulary.Conformance
import CommandScript.Proofs.Binding.Explicit
import CommandScript.Proofs.Signature.Characters
import CommandScript.Proofs.Vocabulary.Acceptance
import CommandScript.Proofs.Vocabulary.Regular
import CommandScript.Proofs.Statement.Printed
import CommandScript.Proofs.Interpreter.Termination
import CommandScript.Proofs.Interpreter.Isolation
import CommandScript.Proofs.Interpreter.Reports
import CommandScript.Proofs.Vocabulary.Defaults
import CommandScript.Proofs.Store.Contents
import CommandScript.Proofs.Store.Session
import CommandScript.Proofs.Binding.Access
import CommandScript.Proofs.Vocabulary.Naming
import CommandScript.Proofs.Signature.Depth
import CommandScript.Proofs.Vocabulary.Nesting
import CommandScript.Proofs.Vocabulary.Reprint
import CommandScript.Proofs.Binding.Rules
import CommandScript.Proofs.Binding.Relabel
import CommandScript.Proofs.Vocabulary.Expansion
import CommandScript.Proofs.Statement.Frames
import CommandScript.Proofs.Statement.Calls
import CommandScript.Proofs.Statement.Layout
import CommandScript.Proofs.Vocabulary.Registration
import CommandScript.Proofs.Vocabulary.Overloads
import CommandScript.Proofs.Script.Identity
