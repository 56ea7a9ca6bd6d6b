import Remo.Spec.Registry.CanonicalContent
import Remo.Spec.Registry.Rollback
import Remo.Spec.Mailbox.AttemptAccounting
import Remo.Spec.Mailbox.FailedClaims
import Remo.Spec.Mailbox.SqliteAgreement
import Remo.Spec.Mailbox.Exclusivity
import Remo.Spec.Mailbox.ScopeIsolation
import Remo.Spec.Storage.ScopedWalks
import Remo.Spec.State.ParallelChecks
import Remo.Spec.Phase.Gather
import Remo.Spec.Permission.Decision
import Remo.Spec.Pattern.Wildcards
import Remo.Spec.Loop.CompactedOutput
import Remo.Spec.Loop.DurableFold
import Remo.Spec.Event.StagedOnce
import Remo.Spec.Outbox.Fifo
import Remo.Spec.Outbox.Attempts
import Remo.Spec.Event.Idempotency
import Remo.Spec.Protocol.ReplayBuffer
import Remo.Spec.Mailbox.Preflight
import Remo.Spec.Mailbox.RunInput
import Remo.Spec.Background.Identity
import Remo.Spec.Background.Sweep
import Remo.Spec.Storage.RunPointers
import Remo.Spec.Permission.SubjectKeys
import Remo.Spec.Pending.FreezeRules
import Remo.Spec.Pattern.ToolIdLanguage
import Remo.Spec.Engine.PoolRouting
import Remo.Spec.Engine.StreamedArguments
import Remo.Spec.Engine.BreakerAdmission
import Remo.Spec.State.Restores
import Remo.Spec.Loop.ResumeAtomicity
import Remo.Spec.Permission.ConfigRules
import Remo.Spec.Context.TruncationPairs
import Remo.Spec.Phase.ScheduledActions
import Remo.Spec.Engine.CrashResume
import Remo.Spec.Protocol.AgUiInterrupts
import Remo.Spec.Loop.RemoteCheckpoints
import Remo.Spec.Engine.PoolFailover
