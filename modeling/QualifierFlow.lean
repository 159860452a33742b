import QualifierFlow.Analysis.Clauses
import QualifierFlow.Analysis.Entry
import QualifierFlow.Analysis.Event
import QualifierFlow.Analysis.Flow
import QualifierFlow.Analysis.Run
import QualifierFlow.Analysis.Step
import QualifierFlow.Assumptions.Arguments
import QualifierFlow.Assumptions.Basic
import QualifierFlow.Closure
import QualifierFlow.Contract.Basic
import QualifierFlow.Contract.Resolution
import QualifierFlow.Diagnostic.Basic
import QualifierFlow.Diagnostic.Report
import QualifierFlow.Diagnostic.Snippet
import QualifierFlow.Diagnostic.Source
import QualifierFlow.Domain
import QualifierFlow.Hierarchy.Basic
import QualifierFlow.Hierarchy.Family
import QualifierFlow.Hierarchy.Guarded
import QualifierFlow.Hierarchy.Order
import QualifierFlow.Host.Basic
import QualifierFlow.Host.Recorded
import QualifierFlow.Host.Table
import QualifierFlow.Id
import QualifierFlow.Path.Basic
import QualifierFlow.Path.Containment
import QualifierFlow.Path.Order
import QualifierFlow.Program
import QualifierFlow.Proofs.Analysis.ClauseFacts
import QualifierFlow.Proofs.Analysis.ClauseRuns
import QualifierFlow.Proofs.Analysis.Comparison
import QualifierFlow.Proofs.Analysis.Complaints
import QualifierFlow.Proofs.Analysis.Coupling
import QualifierFlow.Proofs.Analysis.EntryFacts
import QualifierFlow.Proofs.Analysis.Failure
import QualifierFlow.Proofs.Analysis.Invariance
import QualifierFlow.Proofs.Analysis.Invocation
import QualifierFlow.Proofs.Analysis.Learning
import QualifierFlow.Proofs.Analysis.Monotonicity
import QualifierFlow.Proofs.Analysis.Narrowing
import QualifierFlow.Proofs.Analysis.Noninterference
import QualifierFlow.Proofs.Analysis.Oracle
import QualifierFlow.Proofs.Analysis.Protocol
import QualifierFlow.Proofs.Analysis.Remembering
import QualifierFlow.Proofs.Analysis.Session
import QualifierFlow.Proofs.Analysis.Simulation
import QualifierFlow.Proofs.Analysis.Transcript
import QualifierFlow.Proofs.Analysis.TypeTest
import QualifierFlow.Proofs.Contract.Declaring
import QualifierFlow.Proofs.Contract.Recall
import QualifierFlow.Proofs.Hierarchy.Join
import QualifierFlow.Proofs.Hierarchy.LeastBound
import QualifierFlow.Proofs.Hierarchy.Lineage
import QualifierFlow.Proofs.Listing
import QualifierFlow.Proofs.Path.Meaning
import QualifierFlow.Proofs.Path.Parts
import QualifierFlow.Proofs.Path.Precedence
import QualifierFlow.Proofs.Store.Assignment
import QualifierFlow.Proofs.Store.Commuting
import QualifierFlow.Proofs.Store.Effects
import QualifierFlow.Proofs.Store.Keys
import QualifierFlow.Proofs.Store.Listing
import QualifierFlow.Proofs.Store.Merging
import QualifierFlow.Proofs.Store.Precision
import QualifierFlow.Proofs.Store.Recording
import QualifierFlow.Proofs.Store.Staleness
import QualifierFlow.SortedMap
import QualifierFlow.Store.Basic
import QualifierFlow.Store.Lookup
import QualifierFlow.Text.Blank
import QualifierFlow.Text.Width
