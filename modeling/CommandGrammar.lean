import CommandGrammar.Main
import CommandGrammar.Chart.Language
import CommandGrammar.Grammar.Language
import CommandGrammar.Tree.Derivation
import CommandGrammar.Proofs.Chart.Closure
import CommandGrammar.Proofs.Chart.Nullable
import CommandGrammar.Proofs.Chart.Sets
import CommandGrammar.Proofs.Chart.Ends
import CommandGrammar.Proofs.Chart.Viable
import CommandGrammar.Proofs.Reading.Cycles
import CommandGrammar.Proofs.Reading.Success
import CommandGrammar.Proofs.Flatten.Denotation
import CommandGrammar.Proofs.Flatten.Meaning
import CommandGrammar.Proofs.Flatten.Shape
import CommandGrammar.Proofs.Flatten.Language
import CommandGrammar.Proofs.Flatten.Leaves
import CommandGrammar.Proofs.Flatten.Productive
import CommandGrammar.Proofs.Model.Nodes
import CommandGrammar.Proofs.Model.Origins
import CommandGrammar.Proofs.Reading.Derivation
import CommandGrammar.Proofs.Model.Compiled
import CommandGrammar.Proofs.Model.Productive
import CommandGrammar.Proofs.Recognition
import CommandGrammar.Proofs.Policy.Picks
import CommandGrammar.Proofs.Policy.Symbols
import CommandGrammar.Proofs.Policy.Expressions
import CommandGrammar.Proofs.Policy.Repetitions
import CommandGrammar.Proofs.Policy.Headed
import CommandGrammar.Proofs.Policy.Tightened
import CommandGrammar.Proofs.Modes
import CommandGrammar.Proofs.Refusal
import CommandGrammar.Proofs.Line.Tokens
import CommandGrammar.Proofs.Line.Arguments
import CommandGrammar.Proofs.Schema.Check
import CommandGrammar.Proofs.Options.Chunks
import CommandGrammar.Proofs.Options.Uses
import CommandGrammar.Proofs.Model.Productions
import CommandGrammar.Proofs.Policy.Commands
import CommandGrammar.Proofs.Options.Triggers
import CommandGrammar.Proofs.Options.Reading
import CommandGrammar.Proofs.Options.Resolution
import CommandGrammar.Proofs.Options.RoundTrip
import CommandGrammar.Proofs.Model.Branches
import CommandGrammar.Proofs.Resolved.Kept
import CommandGrammar.Proofs.Policy.Joined
import CommandGrammar.Proofs.Options.Missing
import CommandGrammar.Proofs.Positional
import CommandGrammar.Proofs.Layer.Origins
import CommandGrammar.Proofs.Layer.Precedence
import CommandGrammar.Proofs.Resolved.Accounted
import CommandGrammar.Proofs.Layer.Defaults
import CommandGrammar.Proofs.Model.Unfolding
import CommandGrammar.Proofs.Value.Dotted
import CommandGrammar.Proofs.Layer.Identified
import CommandGrammar.Proofs.Reading.Terminates
import CommandGrammar.Proofs.Listing.Identity
import CommandGrammar.Proofs.Line.Blanks
import CommandGrammar.Proofs.Line.Continuation
import CommandGrammar.Proofs.Options.Passed
import CommandGrammar.Proofs.Widening
import CommandGrammar.Proofs.Line.Separated
import CommandGrammar.Proofs.Resolved.Filled
import CommandGrammar.Proofs.Violations
import CommandGrammar.Proofs.Layer.Variables
import CommandGrammar.Proofs.Value.Algebra
import CommandGrammar.Proofs.Value.Flattened
import CommandGrammar.Proofs.Model.Lines
import CommandGrammar.Proofs.Rearranged
import CommandGrammar.Proofs.Constructible
import CommandGrammar.Proofs.Printed
import CommandGrammar.Proofs.Resolved.Shapes
import CommandGrammar.Proofs.Emptiness
import CommandGrammar.Proofs.Recorded
import CommandGrammar.Proofs.Reading.Greedy
import CommandGrammar.Proofs.Serialized
