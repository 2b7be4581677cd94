import EcmaTree.Main
import EcmaTree.Options.Summary
import EcmaTree.Syntax.Walk
import EcmaTree.Proofs.Advance
import EcmaTree.Proofs.Combinators
import EcmaTree.Proofs.Grammar.Assignment
import EcmaTree.Proofs.Grammar.Iteration
import EcmaTree.Proofs.Grammar.Program
import EcmaTree.Proofs.Partition
import EcmaTree.Proofs.Spans
import EcmaTree.Proofs.Tokens
import EcmaTree.Proofs.Tolerance
import EcmaTree.Proofs.Placeholders
import EcmaTree.Proofs.Derivation.Operators
import EcmaTree.Proofs.Derivation.Program
import EcmaTree.Proofs.Derivation.Nodes
import EcmaTree.Proofs.Elements
import EcmaTree.Proofs.Patterns
import EcmaTree.Proofs.Targets
import EcmaTree.Proofs.Outputs
import EcmaTree.Proofs.Jumps
import EcmaTree.Proofs.StrictCode
import EcmaTree.Proofs.Tokenizer.Lossless
import EcmaTree.Proofs.Plain.Program
import EcmaTree.Proofs.Tokenizer.Agreement
import EcmaTree.Proofs.Tokenizer.Tolerance
import EcmaTree.Proofs.RoundTrip.Parentheses
import EcmaTree.Proofs.Identity
import EcmaTree.Proofs.Errors
import EcmaTree.Proofs.Positions
import EcmaTree.Proofs.Recovery
import EcmaTree.Proofs.Ends
import EcmaTree.Proofs.Attachment.Sides
import EcmaTree.Proofs.Operators.Chain
import EcmaTree.Proofs.Newlines
import EcmaTree.Proofs.Leaves
import EcmaTree.Proofs.Directives
import EcmaTree.Proofs.Repeats
import EcmaTree.Proofs.Columns
import EcmaTree.Proofs.Tokenizer.Stops
import EcmaTree.Proofs.Lexer.Encodings
import EcmaTree.Proofs.Lexer.Chunks
import EcmaTree.Proofs.Lexer.Names
import EcmaTree.Proofs.Lexer.Regexes
import EcmaTree.Proofs.Lexer.References
import EcmaTree.Proofs.AsyncArrows
import EcmaTree.Proofs.Chains
import EcmaTree.Proofs.Lexer.Sessions
import EcmaTree.Proofs.Conversion
import EcmaTree.Proofs.Written
