import HeraMind.Rules.Admission
import HeraMind.Rules.Cooldown
import HeraMind.Rules.FireOnce
import HeraMind.Rules.LostUpdate
import HeraMind.Rules.Persistence
import HeraMind.Rules.Sustained
import HeraMind.Storage.Deletion
import HeraMind.Storage.MetricIndex
import HeraMind.Agent.ToolRemoval
import HeraMind.Agent.StreamDetector
import HeraMind.Agent.SummaryCoverage
import HeraMind.Extension.Deadlock
import HeraMind.Extension.CrashBudget
import HeraMind.Extension.Unloaded
import HeraMind.Ipc.StdinReader
import HeraMind.Ipc.Capability
import HeraMind.Ipc.Correlation
import HeraMind.Ipc.Pipeline
import HeraMind.Ipc.Restart
import HeraMind.Ipc.Segmented
import HeraMind.Bus.EventBus
import HeraMind.Extension.Confinement
import HeraMind.Extension.SafetyLocks
import HeraMind.Extension.CircuitRuns
import HeraMind.Extension.EventDispatch
import HeraMind.Push.OnlyChanges
import HeraMind.Push.NestedBatch
import HeraMind.Push.Runnable
import HeraMind.Push.VirtualCopies
import HeraMind.Messages.Dedup
import HeraMind.Messages.Durability
import HeraMind.Messages.ChannelCoherence
import HeraMind.Messages.ActiveIndex
import HeraMind.Messages.Scrub
import HeraMind.Im.Allowlist
import HeraMind.Im.Reset
import HeraMind.Im.Replies
import HeraMind.Im.Telegram
import HeraMind.Devices.RegistryCoherence
import HeraMind.Devices.LastSeen
import HeraMind.Devices.TopicIndex
import HeraMind.Devices.CommandParams
import HeraMind.Devices.CommandFaithful
import HeraMind.Devices.ExtractorAgreement
import HeraMind.Devices.ImageExhaustion
import HeraMind.Scheduler.Cadence
import HeraMind.Scheduler.Failures
import HeraMind.Rules.Soundness
import HeraMind.Rules.DeviceStatus
import HeraMind.Rules.PreviewText
import HeraMind.Auth.ApiKeyRuns
import HeraMind.Auth.UserRuns
import HeraMind.Agent.SingleStream
import HeraMind.Agent.SessionUpdates
import HeraMind.Agent.PendingStream
import HeraMind.Agent.ToolRuns
import HeraMind.Agent.ShellAgreement
import HeraMind.Agent.BatchOrder
import HeraMind.Api.RateLimit
