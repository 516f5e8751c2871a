import TokenGrammar.Main
import TokenGrammar.Item
import TokenGrammar.Tree.Edit
import TokenGrammar.Proofs.Derivation.OrderedChoice
import TokenGrammar.Proofs.Grammar.Loaded
import TokenGrammar.Proofs.Tree.Leaves
import TokenGrammar.Proofs.Derivation.ParseTree
import TokenGrammar.Proofs.Derivation.Nesting
import TokenGrammar.Proofs.Derivation.Calls
import TokenGrammar.Proofs.Derivation.LeftRecursion
import TokenGrammar.Proofs.Grammar.ContextFree
import TokenGrammar.Proofs.Derivation.Predictive
import TokenGrammar.Proofs.Grammar.Format
import TokenGrammar.Proofs.Grammar.Pass
import TokenGrammar.Proofs.Grammar.Reading
import TokenGrammar.Proofs.Grammar.Rendering
import TokenGrammar.Proofs.Derivation.Names
import TokenGrammar.Proofs.Derivation.Commitment
import TokenGrammar.Proofs.Derivation.EmptyInput
import TokenGrammar.Proofs.Derivation.ReachableRules
import TokenGrammar.Proofs.Text.Utf8
import TokenGrammar.Proofs.Text.LineReader
import TokenGrammar.Proofs.Grammar.Sources
import TokenGrammar.Proofs.Json.RoundTrip
import TokenGrammar.Proofs.Tree.Json
import TokenGrammar.Proofs.Text.Utf8Validity
import TokenGrammar.Proofs.Loading.Undecodable
import TokenGrammar.Proofs.Files.Writing
import TokenGrammar.Proofs.Command.AllOrNothing
import TokenGrammar.Proofs.Json.Limits
import TokenGrammar.Proofs.Loading.Overlong
import TokenGrammar.Proofs.Derivation.DeadAlternatives
import TokenGrammar.Proofs.Derivation.Leftover
import TokenGrammar.Proofs.Tree.Format
import TokenGrammar.Proofs.Derivation.FromIndex
import TokenGrammar.Proofs.Derivation.Sums
import TokenGrammar.Proofs.Derivation.Lookups
import TokenGrammar.Proofs.Loading.Shapes
import TokenGrammar.Proofs.Loading.RoundTrip
import TokenGrammar.Proofs.Tree.Paths
import TokenGrammar.Proofs.Tree.Views
