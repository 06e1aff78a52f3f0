import ConstructorPlatform.Reasoning.System
import ConstructorPlatform.Reasoning.Walk
import ConstructorPlatform.Reasoning.Drain
import ConstructorPlatform.Reasoning.Hex
import ConstructorPlatform.Reasoning.Store
import ConstructorPlatform.Reasoning.Fold
import ConstructorPlatform.Reasoning.Paging
import ConstructorPlatform.Reasoning.Words
import ConstructorPlatform.Reasoning.Blocks
import ConstructorPlatform.Reasoning.Flow
import ConstructorPlatform.Reasoning.Purge
import ConstructorPlatform.Value
import ConstructorPlatform.Events
import ConstructorPlatform.UuidText
import ConstructorPlatform.PlatformApi.Condition
import ConstructorPlatform.PlatformApi.Transform
import ConstructorPlatform.PlatformApi.Contents
import ConstructorPlatform.PlatformApi.Assignment
import ConstructorPlatform.PlatformApi.Complements
import ConstructorPlatform.PlatformApi.Writes
import ConstructorPlatform.PlatformApi.Simultaneous
import ConstructorPlatform.PlatformApi.Copies
import ConstructorPlatform.PlatformApi.DisjointMappings
import ConstructorPlatform.PlatformApi.NestedWrite
import ConstructorPlatform.PlatformApi.StoredContext
import ConstructorPlatform.PlatformApi.Validator
import ConstructorPlatform.PlatformApi.Executor
import ConstructorPlatform.PlatformApi.LifeCycle
import ConstructorPlatform.PlatformApi.References
import ConstructorPlatform.PlatformApi.NextLinks
import ConstructorPlatform.PlatformApi.Meaning
import ConstructorPlatform.PlatformApi.DeadSteps
import ConstructorPlatform.PlatformApi.Accumulation
import ConstructorPlatform.PlatformApi.Flush
import ConstructorPlatform.PlatformApi.Dispatcher
import ConstructorPlatform.PlatformApi.Dispatching
import ConstructorPlatform.PlatformApi.Process
import ConstructorPlatform.PlatformApi.CallOrder
import ConstructorPlatform.PlatformApi.Waiters
import ConstructorPlatform.PlatformApi.Pool
import ConstructorPlatform.PlatformApi.TenantScope
import ConstructorPlatform.PlatformApi.TenantResidue
import ConstructorPlatform.PlatformApi.Access
import ConstructorPlatform.PlatformApi.Reads
import ConstructorPlatform.PlatformApi.Pages
import ConstructorPlatform.PlatformApi.InternalTrigger
import ConstructorPlatform.PlatformApi.Webhooks
import ConstructorPlatform.PlatformApi.WebhookAnswers
import ConstructorPlatform.PlatformApi.Requests
import ConstructorPlatform.PlatformApi.TenantRows
import ConstructorPlatform.PlatformApi.WebhookAuthority
import ConstructorPlatform.PlatformApi.Accounts
import ConstructorPlatform.PlatformApi.Noninterference
import ConstructorPlatform.PlatformApi.Tokens
import ConstructorPlatform.PlatformApi.Authority
import ConstructorPlatform.PlatformApi.Backend
import ConstructorPlatform.PlatformApi.Endings
import ConstructorPlatform.AgentOrchestration.Nodes
import ConstructorPlatform.AgentOrchestration.AgentRunner
import ConstructorPlatform.AgentOrchestration.Rounds
import ConstructorPlatform.AgentOrchestration.AgentLoop
import ConstructorPlatform.AgentOrchestration.Conversation
import ConstructorPlatform.AgentOrchestration.Consumer
import ConstructorPlatform.AgentOrchestration.SqlQuery
import ConstructorPlatform.AgentOrchestration.IpAddress
import ConstructorPlatform.AgentOrchestration.HttpGeneric
import ConstructorPlatform.ConsumerLoops
import ConstructorPlatform.Correlation
import ConstructorPlatform.WebsocketService.Rooms
import ConstructorPlatform.WebsocketService.Subscriptions
import ConstructorPlatform.WebsocketService.History
import ConstructorPlatform.Watchers
import ConstructorPlatform.SchedulerService.Retries
import ConstructorPlatform.SchedulerService.Lock
import ConstructorPlatform.SchedulerService.JobLoader
import ConstructorPlatform.SchedulerService.BadSchedules
import ConstructorPlatform.SchedulerService.Timetable
