import ExprMachine.Span
import ExprMachine.Kind
import ExprMachine.Operator
import ExprMachine.Entries
import ExprMachine.Double.Text
import ExprMachine.Text.Quoted
import ExprMachine.Text.Utf8
import ExprMachine.Text.Integer
import ExprMachine.Text.Lowercase
import ExprMachine.Value.Order
import ExprMachine.Value.Text
import ExprMachine.Program.Listing
import ExprMachine.EvalError
import ExprMachine.Comprehension
import ExprMachine.Standard
import ExprMachine.Code.Memo
import ExprMachine.Machine
import ExprMachine.Machine.InPlace
import ExprMachine.Program.Verification
import ExprMachine.Program.Fingerprint
import ExprMachine.Evaluation
import ExprMachine.Proofs.Drafts
import ExprMachine.Proofs.Steps
import ExprMachine.Proofs.Loading
import ExprMachine.Proofs.Runs
import ExprMachine.Proofs.Simulation
import ExprMachine.Proofs.Jumps
import ExprMachine.Proofs.Iteration
import ExprMachine.Proofs.Turns
import ExprMachine.Proofs.Loops
import ExprMachine.Proofs.Correctness
import ExprMachine.Proofs.Structured
import ExprMachine.Proofs.WellFormed
import ExprMachine.Proofs.Verified
import ExprMachine.Proofs.Safety
import ExprMachine.Proofs.Footprints
import ExprMachine.Proofs.Scopes
import ExprMachine.Proofs.Idempotence
import ExprMachine.Proofs.OperatorTable
import ExprMachine.Proofs.Guards
import ExprMachine.Proofs.FreeVariables
import ExprMachine.Proofs.Registration
import ExprMachine.Proofs.BuilderTables
import ExprMachine.Proofs.Concatenation
import ExprMachine.Proofs.Appending
import ExprMachine.Proofs.Contents
import ExprMachine.Proofs.FlatTable
import ExprMachine.Proofs.RegistrationOrder
import ExprMachine.Proofs.Delimiting
import ExprMachine.Proofs.Coverage
import ExprMachine.Proofs.Separated
import ExprMachine.Proofs.Equality
import ExprMachine.Proofs.NormalForms
import ExprMachine.Proofs.DoubleOrder
import ExprMachine.Proofs.Rounding
import ExprMachine.Proofs.NumberOrder
import ExprMachine.Proofs.MapLiterals
import ExprMachine.Proofs.Readable
import ExprMachine.Proofs.Denotation
import ExprMachine.Proofs.ComprehensionLaws
import ExprMachine.Proofs.Skeletons
import ExprMachine.Proofs.Nodes
import ExprMachine.Proofs.Pools
import ExprMachine.Proofs.SpecialCalls
import ExprMachine.Proofs.Recompiling
import ExprMachine.Proofs.Sizes
import ExprMachine.Proofs.Lookups
import ExprMachine.Proofs.MapConstruction
import ExprMachine.Proofs.StandardFailures
import ExprMachine.Proofs.IntegerArithmetic
import ExprMachine.Proofs.Comparisons
import ExprMachine.Proofs.DoubleConversion
import ExprMachine.Proofs.IntegerText
import ExprMachine.Proofs.MessageFields
import ExprMachine.Proofs.TypeNames
import ExprMachine.Proofs.ListingLines
import ExprMachine.Proofs.OperatorDispatch
import ExprMachine.Proofs.LoopStructure
import ExprMachine.Proofs.NestedLoops
import ExprMachine.Proofs.CodeAlone
import ExprMachine.Proofs.RegisterFrames
import ExprMachine.Proofs.Occurrences
import ExprMachine.Proofs.OverloadSlots
