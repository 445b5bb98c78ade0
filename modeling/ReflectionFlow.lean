import ReflectionFlow.Code.Assembler
import ReflectionFlow.Proofs.Scan.Soundness
import ReflectionFlow.Proofs.Scan.Simple
import ReflectionFlow.Scan.Method
import ReflectionFlow.Proofs.Flow.Representation
import ReflectionFlow.Proofs.State.Lattice
import ReflectionFlow.Proofs.State.Variables
import ReflectionFlow.Proofs.Reflection.Catalogue
import ReflectionFlow.Proofs.Scan.Handlers
import ReflectionFlow.Proofs.Scan.Atomicity
import ReflectionFlow.Proofs.Scan.Record
import ReflectionFlow.Proofs.Scan.History
import ReflectionFlow.Proofs.Scan.Replay
import ReflectionFlow.Proofs.Reflection.Phases
import ReflectionFlow.Proofs.Scan.Switches
import ReflectionFlow.Proofs.Scan.Transparency
import ReflectionFlow.Proofs.Scan.WellFormed
import ReflectionFlow.Proofs.Scan.Balance
import ReflectionFlow.Proofs.Members.Inherited
import ReflectionFlow.Proofs.Session.Requirements
import ReflectionFlow.Proofs.Scan.Versions
import ReflectionFlow.Proofs.Scan.Indirect
import ReflectionFlow.Proofs.Scan.Heap
import ReflectionFlow.Proofs.Scan.Aliases
import ReflectionFlow.Proofs.Scan.Tracking
import ReflectionFlow.Proofs.Code.Layout
import ReflectionFlow.Proofs.Reflection.Activations
import ReflectionFlow.Proofs.Flow.Budget
import ReflectionFlow.Proofs.Flow.Height
import ReflectionFlow.Proofs.Members.Rules
import ReflectionFlow.Proofs.Reflection.Constructors
import ReflectionFlow.Proofs.Value.Histories
import ReflectionFlow.Proofs.Graph.Building
import ReflectionFlow.Proofs.Graph.Postorder
import ReflectionFlow.Proofs.Code.Labels
import ReflectionFlow.Proofs.Flow.Targets
import ReflectionFlow.Proofs.Flow.Landings
import ReflectionFlow.Proofs.Code.Encoding
import ReflectionFlow.Proofs.Code.Shortest
import ReflectionFlow.Proofs.Metadata.Reading
import ReflectionFlow.Proofs.Metadata.Spelling
import ReflectionFlow.Proofs.Metadata.Substitution
import ReflectionFlow.Proofs.Metadata.Searches
import ReflectionFlow.Proofs.Metadata.Coherence
import ReflectionFlow.Proofs.Session.Names
import ReflectionFlow.Proofs.Reflection.Interop
import ReflectionFlow.Proofs.Scan.Calls
import ReflectionFlow.Proofs.Scan.Repeats
import ReflectionFlow.Proofs.Scan.Keeping
import ReflectionFlow.Proofs.Members.Outcome
