import Symkernel.Coordination.Election
import Symkernel.Verify.Agreement
import Symkernel.PolicyImport.Structure
import Symkernel.Breaker.Requests
import Symkernel.Breaker.Window
import Symkernel.Sharding.Rebalancing
import Symkernel.Sharding.History
import Symkernel.Federation.Content
import Symkernel.Federation.Races
import Symkernel.PolicyImport.CedarErrors
import Symkernel.PolicyImport.RegoGrants
import Symkernel.Verify.RoundTrip
import Symkernel.Coordination.Office
import Symkernel.Coordination.Stability
import Symkernel.Cache.Processes
import Symkernel.Cache.Agreement
import Symkernel.Verify.Progress
import Symkernel.Cache.Recency
import Symkernel.Solver.Solve
import Symkernel.Solver.FrontEnds
import Symkernel.Solver.ModelText
import Symkernel.Solver.Declarations
import Symkernel.Governance.Rollback
import Symkernel.Solver.DecisionHistory
import Symkernel.Coordination.WellFormed
import Symkernel.Coordination.Workload
import Symkernel.Cache.RespStreams
import Symkernel.Cache.Interchange
import Symkernel.PolicyImport.CedarMembership
import Symkernel.Cache.ContextHash
import Symkernel.Governance.Listing
import Symkernel.Sandbox.Run
import Symkernel.Audit.Interleaving
import Symkernel.Governance.VersionText
import Symkernel.Observability.Quantile
import Symkernel.Otel.Metrics
import Symkernel.PolicyImport.Rendering
