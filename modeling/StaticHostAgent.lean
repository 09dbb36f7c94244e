import StaticHostAgent.Library.DurableProgram
import StaticHostAgent.Library.Directory
import StaticHostAgent.Library.Lines
import StaticHostAgent.Contracts.Validation
import StaticHostAgent.Contracts.OperatorCodec
import StaticHostAgent.Contracts.ExpansionValidation
import StaticHostAgent.Audit.AppendRuns
import StaticHostAgent.Host.LockOrder
import StaticHostAgent.Host.PublicationRuns
import StaticHostAgent.Caddy.RouteIsolation
import StaticHostAgent.State.MeteredHost
import StaticHostAgent.Commit.Identities
import StaticHostAgent.Commit.SharedAlong
import StaticHostAgent.Commit.Deployment
import StaticHostAgent.Commit.RouteRuns
import StaticHostAgent.Commit.CreateRuns
import StaticHostAgent.Releases.CrashSafety
import StaticHostAgent.Jobs.Authority
import StaticHostAgent.Caddy.StartupRuns
import StaticHostAgent.Activation.Safety
import StaticHostAgent.Maintenance.Runs
import StaticHostAgent.Audit.WitnessInverse
import StaticHostAgent.HostRestore.JournalRuns
import StaticHostAgent.Backup.LineageRuns
import StaticHostAgent.Intake.SlotRuns
import StaticHostAgent.Operator.Handover
import StaticHostAgent.Jobs.Rate
import StaticHostAgent.Jobs.RecoveryBatch
import StaticHostAgent.Zip.MemberStreamExact
import StaticHostAgent.Zip.MaterializedPaths
import StaticHostAgent.Zip.PortableBundle
import StaticHostAgent.Zip.StructureSound
import StaticHostAgent.Jobs.ResultAudit
import StaticHostAgent.Lease.StateRuns
import StaticHostAgent.Isolation.Publications
import StaticHostAgent.Archives.RemoteListingRuns
import StaticHostAgent.Contracts.IntentSoundness
import StaticHostAgent.HostRestore.Translation
import StaticHostAgent.HostRestore.RuntimeApplication
import StaticHostAgent.Commit.CreateConvergence
import StaticHostAgent.Commit.DeploymentLaws
import StaticHostAgent.Exports.DeliveryLaws
import StaticHostAgent.Commit.System
import StaticHostAgent.Commit.DeletionLaws
import StaticHostAgent.Commit.RestorationLaws
