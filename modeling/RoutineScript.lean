import RoutineScript.Main
import RoutineScript.Proofs.Store.Operation
import RoutineScript.Proofs.Store.Isolation
import RoutineScript.Proofs.Run.Change
import RoutineScript.Proofs.Store.Growth
import RoutineScript.Proofs.Run.Activity
import RoutineScript.Proofs.Run.Calls
import RoutineScript.Proofs.Run.Evaluator
import RoutineScript.Proofs.Run.Aliasing
import RoutineScript.Proofs.Run.Coherence
import RoutineScript.Proofs.Printing.Scanning
import RoutineScript.Proofs.Printing.Spelling
import RoutineScript.Proofs.Printing.Nesting
import RoutineScript.Proofs.Printing.Expression
import RoutineScript.Proofs.Printing.Instruction
import RoutineScript.Proofs.Printing.Cutting
import RoutineScript.Proofs.Printing.Normalizing
import RoutineScript.Proofs.Printing.Statement
import RoutineScript.Proofs.Printing.Segmenting
import RoutineScript.Proofs.Printing.Program
import RoutineScript.Proofs.Source.Lexemes
import RoutineScript.Proofs.Source.Blanks
import RoutineScript.Proofs.Run.Scopes
import RoutineScript.Proofs.Run.Written
import RoutineScript.Proofs.Run.Law
import RoutineScript.Proofs.Run.Lawful
import RoutineScript.Proofs.Run.Construction
import RoutineScript.Proofs.Run.Supers
import RoutineScript.Proofs.Run.Inheritance
import RoutineScript.Proofs.Run.Termination
import RoutineScript.Proofs.Store.Living
import RoutineScript.Proofs.Run.Homes
import RoutineScript.Proofs.Run.Overriding
import RoutineScript.Proofs.Run.Locality
import RoutineScript.Proofs.Run.Activation
import RoutineScript.Proofs.Run.Limits
import RoutineScript.Proofs.Source.Balance
import RoutineScript.Proofs.Source.Acceptance
import RoutineScript.Proofs.Source.Scans
import RoutineScript.Proofs.Source.Refusals
import RoutineScript.Proofs.Source.Statements
import RoutineScript.Proofs.Source.Partners
import RoutineScript.Proofs.Source.Lines
import RoutineScript.Proofs.Source.Shifting
import RoutineScript.Proofs.Source.Joining
import RoutineScript.Proofs.Source.Origins
import RoutineScript.Proofs.Offsets.Program
import RoutineScript.Proofs.Source.Preorder
import RoutineScript.Proofs.Run.Faults
import RoutineScript.Proofs.Run.Located
import RoutineScript.Proofs.Run.Stopping
import RoutineScript.Proofs.Run.Returning
import RoutineScript.Proofs.Reading.Arithmetic
import RoutineScript.Proofs.Reading.Ranks
import RoutineScript.Proofs.Reading.Texts
import RoutineScript.Proofs.Source.Agreement
import RoutineScript.Proofs.Run.Legality
import RoutineScript.Proofs.Run.Members
import RoutineScript.Proofs.Run.Updates
import RoutineScript.Proofs.Run.Expanding
import RoutineScript.Proofs.Run.Dispatch
import RoutineScript.Proofs.Run.MethodCalls
import RoutineScript.Proofs.Run.Lending
import RoutineScript.Proofs.Run.Following
import RoutineScript.Proofs.Run.Resuming
import RoutineScript.Proofs.Reading.Conditions
import RoutineScript.Proofs.Printing.Query
import RoutineScript.Proofs.Source.Rereading
import RoutineScript.Proofs.Source.Editing
import RoutineScript.Proofs.Source.Partition
import RoutineScript.Proofs.Run.Assigning
import RoutineScript.Proofs.Source.Chains
import RoutineScript.Proofs.Source.Pairing
