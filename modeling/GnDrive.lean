import GnDrive.Lib.Prog
import GnDrive.Lib.Relational
import GnDrive.Lib.System
import GnDrive.Lib.Base64
import GnDrive.Lib.Text
import GnDrive.Lib.Calendar
import GnDrive.Lib.Utf8
import GnDrive.Lib.Xml
import GnDrive.Crates
import GnDrive.Argon2id
import GnDrive.Disk
import GnDrive.Crypto
import GnDrive.Auth.Data
import GnDrive.Auth.Instance
import GnDrive.Auth.Service
import GnDrive.Auth.Logic
import GnDrive.Auth.ConfigFiles
import GnDrive.Auth.Operations
import GnDrive.Auth.Faults
import GnDrive.Auth.UnlockFailures
import GnDrive.Auth.MutationFailures
import GnDrive.Auth.Recoverable
import GnDrive.Auth.CrashSafety
import GnDrive.Auth.RoundTrip
import GnDrive.Auth.ChangePassword
import GnDrive.Auth.KeyAgreement
import GnDrive.Auth.HashFormat
import GnDrive.Auth.StoredHash
import GnDrive.Auth.RateLimit
import GnDrive.Auth.Attempts
import GnDrive.Auth.Restarts
import GnDrive.Auth.Sessions
import GnDrive.Auth.Locking
import GnDrive.Auth.RememberedKey
import GnDrive.Container.Recovery
import GnDrive.Container.DataPlane
import GnDrive.Container.Refusals
import GnDrive.Container.Store
import GnDrive.Sync.Engine
import GnDrive.Sync.BusyKey
import GnDrive.Sync.Outcome
import GnDrive.Sync.Completed
import GnDrive.Cron.NextMatch
import GnDrive.Cron.Runner
import GnDrive.Cron.Totality
import GnDrive.Cron.Ticks
import GnDrive.Cron.Zones
import GnDrive.Cron.Fields
import GnDrive.Cron.Normalize
import GnDrive.Database.Transaction
import GnDrive.Rpc.Params
import GnDrive.Rpc.Framing
import GnDrive.Rpc.OAuth
import GnDrive.Rpc.OAuthLinks
import GnDrive.Rpc.OAuthOutput
import GnDrive.Rpc.OAuthStatus
import GnDrive.Flows.Store
import GnDrive.Flows.Requests
import GnDrive.Lib.Sorted
import GnDrive.Flows.Order
import GnDrive.Flows.Operations
import GnDrive.Flows.Patch
import GnDrive.Flows.Serial
import GnDrive.Flows.Running
import GnDrive.Flows.ScheduleIds
import GnDrive.Flows.Schedules
import GnDrive.Events.ProgressOrder
import GnDrive.Events.Delivery
import GnDrive.Events.Coalescing
import GnDrive.Events.Requests
import GnDrive.Events.Mailbox
import GnDrive.Sync.Registry
import GnDrive.Sync.FlowRuns
import GnDrive.Sync.Leftover
import GnDrive.Lib.RunLog
import GnDrive.Sync.RunEvents
import GnDrive.Rclone.Cancellation
import GnDrive.Sync.Admit
import GnDrive.Sync.Shutdown
import GnDrive.Board.Layers
import GnDrive.Board.Run
import GnDrive.Lib.RecentLog
import GnDrive.Lib.OrderedMap
import GnDrive.Runtime.Hub
import GnDrive.Runtime.Log
import GnDrive.Runtime.Mutable
import GnDrive.Rclone.Options
import GnDrive.Rclone.DryRun
import GnDrive.Rclone.Preview
import GnDrive.Rclone.EdgeArgs
import GnDrive.Rclone.Stats
import GnDrive.Rclone.Tracker
import GnDrive.Rclone.Client
import GnDrive.Rclone.ProgressThreads
import GnDrive.Rclone.Finished
import GnDrive.Rclone.Pending
import GnDrive.Rpc.Profiles
import GnDrive.Database.ProfileRows
import GnDrive.Database.Boards
import GnDrive.Rpc.Responses
import GnDrive.Rpc.Redaction
import GnDrive.Rpc.Outgoing
import GnDrive.Rpc.Remotes
import GnDrive.Rpc.ConfigForms
import GnDrive.Gpui.Core
import GnDrive.Gpui.Lifecycle
import GnDrive.Gpui.Stdio
import GnDrive.Gpui.Supervision
import GnDrive.Gpui.WindowRuntime
import GnDrive.Gpui.RuntimeAgreement
import GnDrive.Gpui.WindowState
import GnDrive.Gpui.Busy
import GnDrive.Gpui.Drafts
import GnDrive.Gpui.SyncConfig
import GnDrive.Gpui.OptionReads
import GnDrive.Lib.JsonText
import GnDrive.Lib.Keyed
import GnDrive.Gpui.Graph
import GnDrive.Gpui.CanvasText
import GnDrive.Gpui.GraphRoundTrip
import GnDrive.Lib.Tables
import GnDrive.Gpui.Caches
import GnDrive.Gpui.Inspector
import GnDrive.Gpui.Locations
import GnDrive.Gpui.CanvasEdits
import GnDrive.Gpui.LocationFields
import GnDrive.Gpui.Connections
import GnDrive.Gpui.OperationIds
import GnDrive.Lib.Ints
import GnDrive.InstanceLock
import GnDrive.Launchd
import GnDrive.Lib.Dates
import GnDrive.Lib.Cut
import GnDrive.Gpui.Civil
import GnDrive.Gpui.HistoryTimes
import GnDrive.SelfUpdate.Version
import GnDrive.SelfUpdate.Release
import GnDrive.SelfUpdate.Swap
import GnDrive.SelfUpdate.Decision
import GnDrive.Rpc.RemoteRuns
import GnDrive.Gpui.CronLabel
import GnDrive.Rpc.LogBuffer
