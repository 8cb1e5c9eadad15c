import Maknae.Security.ComposeLaws
import Maknae.Authz.SiteFloor
import Maknae.Kernel.MutationService
import Maknae.Config.Assemble
import Maknae.Config.JsonReader
import Maknae.Config.SyncLaws
import Maknae.StateGraph.QueriesExact
import Maknae.Authz.Restrict
import Maknae.Cli.PolicySync
import Maknae.Audit.SyslogFormat
import Maknae.Kernel.Accept
import Maknae.Loop.StreamPages
import Maknae.Kernel.LiveTurn
import Maknae.Kernel.Containment
import Maknae.State.Rollback
import Maknae.State.SyncGuard
import Maknae.State.Vocabulary
import Maknae.Egress.Serve
import Maknae.Vault.SupervisorRun
import Maknae.Config.Endpoint
import Maknae.Io.Normalize
import Maknae.Agent.PathGates
import Maknae.Agent.Session
