import Unbound.Source.Span
import Unbound.Source.Position
import Unbound.Name.Basic
import Unbound.Name.Interner
import Unbound.Dangling
import Unbound.Tree.NodeId
import Unbound.Tree.Operator
import Unbound.Tree.Construct
import Unbound.Tree.Arena
import Unbound.Tree.Builder
import Unbound.Tree.Walk
import Unbound.FreeVariable
import Unbound.Scope.Occurrences
import Unbound.Scope.Chain
import Unbound.Ambient
import Unbound.Check
import Unbound.Diagnostic.Code
import Unbound.Diagnostic.Basic
import Unbound.Diagnostic.Queue
import Unbound.Report
import Unbound.Proofs.Resolution.Outline
import Unbound.Proofs.Resolution.Reading
import Unbound.Proofs.Scope.Gathering
import Unbound.Proofs.Resolution.Replay
import Unbound.Proofs.Resolution.Deferred
import Unbound.Proofs.Diagnostic.Admission
import Unbound.Proofs.Name.Interning
import Unbound.Proofs.Report.Truncation
import Unbound.Proofs.Resolution.Discipline
import Unbound.Proofs.Scope.Rearrangement
import Unbound.Proofs.Resolution.Enumeration
import Unbound.Proofs.Resolution.AmbientFilter
import Unbound.Proofs.Resolution.Siblings
import Unbound.Proofs.Tree.Skeleton
import Unbound.Proofs.Scope.Places
import Unbound.Proofs.Resolution.Noninterference
import Unbound.Proofs.Tree.Descent
import Unbound.Proofs.Resolution.Ending
import Unbound.Proofs.Tree.Construction
import Unbound.Proofs.Resolution.Built
import Unbound.Proofs.Scope.Nesting
import Unbound.Proofs.Scope.Handles
import Unbound.Proofs.Scope.History
import Unbound.Proofs.Scope.Lifetimes
import Unbound.Proofs.Tree.Preorder
import Unbound.Proofs.Resolution.Sights
import Unbound.Proofs.Tree.Widening
import Unbound.Proofs.Resolution.Insertion
import Unbound.Proofs.Resolution.Histories
import Unbound.Proofs.Resolution.Probes
import Unbound.Proofs.Tree.Extent
import Unbound.Proofs.Tree.Covering
import Unbound.Proofs.Report.Overflow
import Unbound.Proofs.Source.Counting
import Unbound.Proofs.Source.Order
import Unbound.Proofs.Diagnostic.Flushing
import Unbound.Proofs.Source.Capacity
import Unbound.Proofs.Tree.Storage
