import OpsControlPlane.Safety.Locks
import OpsControlPlane.Safety.Traces
import OpsControlPlane.Safety.Migration
import OpsControlPlane.Safety.Egress
import OpsControlPlane.Safety.Backups
import OpsControlPlane.Safety.Histories
import OpsControlPlane.Safety.Alerts
import OpsControlPlane.Safety.Passes
import OpsControlPlane.Safety.Dispatch
import OpsControlPlane.Safety.Finances
import OpsControlPlane.Safety.Recoveries
import OpsControlPlane.Safety.Deployments
import OpsControlPlane.Safety.Retentions
import OpsControlPlane.Safety.Releases
import OpsControlPlane.Safety.ReleaseAudits
import OpsControlPlane.Safety.Archives
import OpsControlPlane.Safety.PendingApprovals
import OpsControlPlane.Safety.Replications
import OpsControlPlane.Safety.Modes
import OpsControlPlane.Safety.MemoryApis
import OpsControlPlane.Safety.Incidents
import OpsControlPlane.Safety.Receptions
import OpsControlPlane.Safety.Snapshots
import OpsControlPlane.Safety.Watches
import OpsControlPlane.Safety.Pilots
import OpsControlPlane.Safety.Rollups
import OpsControlPlane.Safety.LogPages
import OpsControlPlane.Safety.SourceTrees
import OpsControlPlane.Safety.VolumeRollbacks
import OpsControlPlane.Safety.TransactionFiles
import OpsControlPlane.Safety.Capabilities
import OpsControlPlane.Safety.Redactions
import OpsControlPlane.Safety.Plans
import OpsControlPlane.Safety.Workflows
import OpsControlPlane.Safety.Lifecycles
import OpsControlPlane.Safety.Artifacts
import OpsControlPlane.Safety.Scores
import OpsControlPlane.Safety.Costs
import OpsControlPlane.Safety.Markers
import OpsControlPlane.Safety.MemoryPages
import OpsControlPlane.Safety.NextMissions
import OpsControlPlane.Safety.Executables
import OpsControlPlane.Safety.Responses
import OpsControlPlane.Safety.Tiers
import OpsControlPlane.Safety.ProviderCalls
import OpsControlPlane.Safety.Ingestions
import OpsControlPlane.Safety.SemanticIndexes
import OpsControlPlane.Safety.Requests
import OpsControlPlane.Safety.Runs
