import GenericCalls.LogFormat
import GenericCalls.Main
import GenericCalls.Proofs.Session.Balance
import GenericCalls.Proofs.Ranking.Nesting
import GenericCalls.Proofs.Lub.Calls
import GenericCalls.Proofs.Lub.Classes
import GenericCalls.Proofs.Lub.Commutative
import GenericCalls.Proofs.Assignable.Rules
import GenericCalls.Proofs.Assignable.Solid
import GenericCalls.Proofs.Store.Regular
import GenericCalls.Proofs.Assignable.Object
import GenericCalls.Proofs.Lub.Arguments
import GenericCalls.Proofs.Lub.Results
import GenericCalls.Proofs.Lub.UpperBound
import GenericCalls.Proofs.Inference.Factory
import GenericCalls.Proofs.Inference.LowerBounds
import GenericCalls.Proofs.Ranking.Linear
import GenericCalls.Proofs.Ranking.AllOrNothing
import GenericCalls.Proofs.Ranking.Isolation
import GenericCalls.Proofs.Inference.Closed
import GenericCalls.Proofs.Scenario.Reports
import GenericCalls.Proofs.TypeExpr.RoundTrip
import GenericCalls.Proofs.Scenario.Receivers
import GenericCalls.Proofs.Ranking.Later
import GenericCalls.Proofs.Ranking.Reached
import GenericCalls.Proofs.Match.Termination
import GenericCalls.Proofs.Match.Captured
import GenericCalls.Proofs.Scenario.References
import GenericCalls.Proofs.Ranking.Preserves
import GenericCalls.Proofs.Scenario.WellFormed
import GenericCalls.Proofs.Store.Nearest
import GenericCalls.Proofs.Match.Inverse
import GenericCalls.Proofs.Report.Best
import GenericCalls.Proofs.Store.Instances
import GenericCalls.Proofs.Assignable.Loose
import GenericCalls.Proofs.Assignable.Ground
import GenericCalls.Proofs.Store.Erasure
import GenericCalls.Proofs.Lub.Least
import GenericCalls.Proofs.Assignable.Nesting
import GenericCalls.Proofs.Assignable.Erasure
import GenericCalls.Proofs.Assignable.Derivations
import GenericCalls.Proofs.Inference.Exact
import GenericCalls.Proofs.Inference.Guesses
import GenericCalls.Proofs.Inference.Siblings
import GenericCalls.Proofs.Scenario.SelfReference
import GenericCalls.Proofs.Report.Bindings
import GenericCalls.Proofs.Session.Visits
import GenericCalls.Proofs.Store.Histories
import GenericCalls.Proofs.Store.Registers
import GenericCalls.Proofs.Match.Absent
import GenericCalls.Proofs.TypeExpr.Positions
