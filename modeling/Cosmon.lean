import Cosmon.Core.CommitteePlans
import Cosmon.Core.CommitteePosture
import Cosmon.Core.CommitteeSafety
import Cosmon.Core.PathSeparation
import Cosmon.Core.Routing
import Cosmon.Core.SporeOutput
import Cosmon.Core.SporeSeal
import Cosmon.Filestore.CasRuns
import Cosmon.Filestore.FleetSplits
import Cosmon.Filestore.HarvestAdmin
import Cosmon.Filestore.HarvestBacklog
import Cosmon.Filestore.LeaseRuns
import Cosmon.Filestore.MailboxTails
import Cosmon.Graph.PlanRuns
import Cosmon.Graph.ReadyFrontier
import Cosmon.Graph.SccClasses
import Cosmon.Graph.Splices
import Cosmon.Graph.Switches
import Cosmon.Harness.CompactionSizes
import Cosmon.Harness.CycleDetection
import Cosmon.Harness.EditTransactions
import Cosmon.Harness.EvidenceRuns
import Cosmon.Harness.Fences
import Cosmon.Harness.Framing
import Cosmon.Harness.LedgerGaps
import Cosmon.Harness.PathEscapes
import Cosmon.Harness.ResumeRuns
import Cosmon.Harness.Session
import Cosmon.Harvest.AdrNumbers
import Cosmon.Harvest.Ancestry
import Cosmon.Harvest.DoneAuthority
import Cosmon.Hashing.StepValidation
import Cosmon.Pilot.CheckpointRuns
import Cosmon.Pilot.Drift
import Cosmon.Provider.CallIds
import Cosmon.Runtime.Compaction
import Cosmon.Runtime.CompileScope
import Cosmon.Runtime.DagDepth
import Cosmon.Runtime.FrontierGates
import Cosmon.Runtime.Rollbacks
import Cosmon.Runtime.RunLoop
import Cosmon.Runtime.TeardownCeiling
import Cosmon.Scheduler.Cadence
import Cosmon.Scheduler.CronGrammar
import Cosmon.State.ArchiveSeals
import Cosmon.State.CollapseSafety
import Cosmon.State.Deps
import Cosmon.State.EventLogSafety
import Cosmon.State.EvolveFaults
import Cosmon.State.InteractionFailures
import Cosmon.State.InteractionLinks
import Cosmon.State.LedgerRuns
import Cosmon.State.RebuildSweep
import Cosmon.State.RetentionGuarantees
import Cosmon.State.Tagging
import Cosmon.State.TokenMeter
import Cosmon.State.Wait
import Cosmon.State.WorkDeliveries
import Cosmon.State.WorkPages
import Cosmon.Supervisor.CrashAlerts
import Cosmon.Supervisor.RespawnRuns
import Cosmon.Supervisor.SpawnRuns
import Cosmon.Verify.FalseAlarms
