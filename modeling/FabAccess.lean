import FabAccess.Infra.Search
import FabAccess.Infra.Interleave
import FabAccess.Authorization.Permissions
import FabAccess.Users
import FabAccess.Authorization.Roles
import FabAccess.Authorization.Properties.RoleReach
import FabAccess.Resources.Resource
import FabAccess.Resources.Properties.Ownership
import FabAccess.Resources.Concurrent
import FabAccess.Resources.Properties.Race
import FabAccess.Lightproc.State
import FabAccess.Lightproc.Awaiter
import FabAccess.Lightproc.Properties.AwaiterLock
import FabAccess.Lightproc.Proc
import FabAccess.Lightproc.Effect
import FabAccess.Lightproc.Tally
import FabAccess.Lightproc.Invariant
import FabAccess.Lightproc.Properties.RefCount
import FabAccess.Authentication.Callback
import FabAccess.Authentication.FabFire
import FabAccess.Lightproc.Contents
import FabAccess.Lightproc.Notify
import FabAccess.Lightproc.PollResult
import FabAccess.Lightproc.Properties.HandleResult
import FabAccess.Lightproc.Recoverable
import FabAccess.Lightproc.Properties.Recovered
import FabAccess.Lightproc.Properties.Notice
import FabAccess.Lightproc.Properties.Release
import FabAccess.Lightproc.Properties.SingleRunner
import FabAccess.Actors
import FabAccess.Actors.Loading
import FabAccess.Actors.Properties.Follow
import FabAccess.Actors.Properties.Wiring
import FabAccess.Actors.Properties.Commands
import FabAccess.Authentication.Card
import FabAccess.Authentication.Properties.CardLogin
import FabAccess.Authorization.Properties.Termination
import FabAccess.Infra.Lines
import FabAccess.Initiators.Process
import FabAccess.Initiators.Properties.Lines
import FabAccess.Lightproc.Properties.Flags
import FabAccess.Resources.Properties.Copies
import FabAccess.Users.Properties.DumpLoad
import FabAccess.Users.Properties.Serial
import FabAccess.Authentication.Properties.Causes
import FabAccess.Authorization.Properties.Collected
import FabAccess.Authorization.Properties.PermOrder
import FabAccess.Authorization.Properties.RuleText
import FabAccess.Console.Aggregate
import FabAccess.Console.Properties.Events
import FabAccess.Executor.Properties.Groups
import FabAccess.Resources.Machine
import FabAccess.Resources.Properties.OwnName
import FabAccess.Resources.Properties.Revocation
import FabAccess.Resources.Properties.Silence
import FabAccess.Authentication.Callbacks
import FabAccess.Authentication.Properties.Panics
import FabAccess.Infra.Base128
import FabAccess.Infra.Queue
import FabAccess.Initiators.Properties.Drained
import FabAccess.Initiators.Properties.ReadLoops
import FabAccess.Resources.Properties.LastUser
import FabAccess.Users.Objects
import FabAccess.Users.Properties.Skipped
import FabAccess.Users.Properties.Stale
import FabAccess.Users.Properties.Tokens
import FabAccess.Utils.Oid
import FabAccess.Utils.Properties.OidRead
import FabAccess.Utils.Properties.OidText
import FabAccess.Utils.Properties.Queue
import FabAccess.Infra.Bytes
import FabAccess.Infra.Align
import FabAccess.Lightproc.Word
import FabAccess.Lightproc.Properties.Word
import FabAccess.Lightproc.Layout
import FabAccess.Lightproc.Properties.Layout
import FabAccess.Executor.Placement
import FabAccess.Executor.Properties.Pinning
import FabAccess.Executor.Worker
import FabAccess.Executor.Properties.Backoff
import FabAccess.Console.Callsites
import FabAccess.Console.Properties.Callsites
import FabAccess.Console.Updates
import FabAccess.Console.Properties.Told
import FabAccess.Console.Replica
import FabAccess.Console.Properties.Replica
import FabAccess.Console.Properties.Synchronise
import FabAccess.Console.Spans
import FabAccess.Console.Properties.Spans
import FabAccess.Console.Properties.BusyTime
import FabAccess.Resources.Properties.Urn
import FabAccess.Resources.Restart
import FabAccess.Resources.Properties.Restart
import FabAccess.Utils.Properties.VarInt
import FabAccess.Utils.Properties.OidBytes
import FabAccess.Infra.Project
import FabAccess.Users.Properties.Projected
import FabAccess.Users.Properties.Authority
import FabAccess.Users.Properties.Confined
import FabAccess.Executor.Pool
import FabAccess.Executor.Properties.Pool
import FabAccess.Executor.Properties.Parking
import FabAccess.Executor.Properties.Drain
import FabAccess.Executor.Block
import FabAccess.Executor.Properties.Block
