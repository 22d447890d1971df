import DiscordAgent.Lifecycle.Transitions
import DiscordAgent.Lifecycle.Recovery
import DiscordAgent.Lifecycle.Retries
import DiscordAgent.Lifecycle.Superseded
import DiscordAgent.Delivery.Rights
import DiscordAgent.Delivery.Suppression
import DiscordAgent.Delivery.Cancellation
import DiscordAgent.Delivery.Outcomes
import DiscordAgent.Scheduling.Queue
import DiscordAgent.Launch.Token
import DiscordAgent.Delivery.Keystrokes
import DiscordAgent.Chaining.Execution
import DiscordAgent.Scheduling.Backoff
import DiscordAgent.Scheduling.Concurrency
import DiscordAgent.Chaining.Children
import DiscordAgent.Lifecycle.Overrides
import DiscordAgent.Delivery.Wakes
import DiscordAgent.Delivery.Grace
import DiscordAgent.Scheduling.Kill
import DiscordAgent.Output.Lenient
import DiscordAgent.Output.RoundTrip
import DiscordAgent.Output.Acceptance
import DiscordAgent.Output.Reader
import DiscordAgent.Lifecycle.Requeues
import DiscordAgent.Delivery.Bookkeeping
import DiscordAgent.Delivery.Abandonment
import DiscordAgent.Output.Redaction
import DiscordAgent.Launch.Handover
import DiscordAgent.Commands.UpdateRepo
import DiscordAgent.Commands.Render
import DiscordAgent.Commands.Dispatch
import DiscordAgent.Commands.Collect
import DiscordAgent.Scheduling.RateLimit
import DiscordAgent.Scheduling.Rounds
import DiscordAgent.Scheduling.Balance
import DiscordAgent.Scheduling.Loop
import DiscordAgent.Launch.Processes
import DiscordAgent.Service.Stop
import DiscordAgent.Launch.Shutdown
import DiscordAgent.Service.Queue
import DiscordAgent.Service.Kills
import DiscordAgent.Storage.Upgrade
import DiscordAgent.Storage.Import
