import Zaowutai.Session.RequiresAction
import Zaowutai.Session.SubagentAbsorption
import Zaowutai.Session.Cancellation
import Zaowutai.Session.OneTurn
import Zaowutai.Team.RunCompletion
import Zaowutai.Team.Finality
import Zaowutai.Team.AttachProtocol
import Zaowutai.Team.TaskDependencies
import Zaowutai.Team.MailboxOwnership
import Zaowutai.Conversation.CancelDelivery
import Zaowutai.Conversation.DeletingGate
import Zaowutai.Explorer.ReportedSet
import Zaowutai.Explorer.EventOwners
import Zaowutai.Explorer.Debouncing
import Zaowutai.Project.RootNesting
import Zaowutai.Scm.OrphanedRepositories
import Zaowutai.Scm.SharedPaths
import Zaowutai.Stream.StreamedIsStored
import Zaowutai.Stream.FrameDelivery
import Zaowutai.Cron.OccurrenceFencing
import Zaowutai.Cron.QueueOverlap
import Zaowutai.Cron.ScheduleEdits
import Zaowutai.Cron.StoredUpdate
import Zaowutai.Cron.SilentJobs
import Zaowutai.Adapter.TextOnce
import Zaowutai.Process.ReapSafety
import Zaowutai.Process.ProcTree
import Zaowutai.Extension.LoadOrder
import Zaowutai.File.ListingCache
import Zaowutai.Process.RegistryMemory
import Zaowutai.Agent.Capabilities
import Zaowutai.Acp.OneControl
import Zaowutai.Acp.PermissionAnswers
import Zaowutai.Listing.ConversationList
import Zaowutai.Auth.JwtService
import Zaowutai.Channel.PairingDecisions
import Zaowutai.Channel.PluginLifecycle
import Zaowutai.Channel.ShownReply
import Zaowutai.CommandQueue.OnePlace
import Zaowutai.Sidebar.ShownUnits
import Zaowutai.SessionMessage.LostMessages
import Zaowutai.SessionMessage.MessageOrder
import Zaowutai.SessionMessage.RateLimiter
import Zaowutai.Auth.WindowLimits
import Zaowutai.Auth.RefreshBursts
import Zaowutai.Messages.PageTiling
import Zaowutai.Messages.FinishedRows
import Zaowutai.MessageList.Batching
import Zaowutai.Team.RestartGates
import Zaowutai.Team.McpRefresh
import Zaowutai.Team.DeliveryRetries
import Zaowutai.Team.LaneOrder
import Zaowutai.MessageList.HistoryMerge
import Zaowutai.Channel.OneConversation
import Zaowutai.Containment.ResolveRelative
import Zaowutai.SessionMessage.MentionPages
import Zaowutai.File.ReadBack
