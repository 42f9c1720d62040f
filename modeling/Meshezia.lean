import Meshezia.Lib.OMap
import Meshezia.Lib.Run
import Meshezia.Lib.Sorted
import Meshezia.Lib.JsString
import Meshezia.Lib.History
import Meshezia.Lib.Utf8
import Meshezia.Lib.Naming
import Meshezia.Lib.JsValue
import Meshezia.Lib.FixedWindow
import Meshezia.Lib.Watchdog
import Meshezia.Lib.PosixPath
import Meshezia.Lib.Distinct
import Meshezia.Lib.PolicyRouting
import Meshezia.Server.Db
import Meshezia.Server.PairKey
import Meshezia.Server.Relay
import Meshezia.Server.Negotiate
import Meshezia.Server.Step
import Meshezia.Server.Table
import Meshezia.Server.Handlers
import Meshezia.Server.Lock
import Meshezia.Server.Connections
import Meshezia.Server.Pairs
import Meshezia.Server.PairSteps
import Meshezia.Server.Binary
import Meshezia.Server.Outcome
import Meshezia.Server.Verdict
import Meshezia.Server.Records
import Meshezia.Server.Streak
import Meshezia.Server.Isolation
import Meshezia.Server.Commute
import Meshezia.Server.Networks
import Meshezia.Server.Backoff
import Meshezia.Server.Removal
import Meshezia.Server.Reaper
import Meshezia.Server.LinkRows
import Meshezia.Server.RelayFlag
import Meshezia.Server.Force
import Meshezia.Server.Switches
import Meshezia.Server.RateLimit
import Meshezia.Server.Vouched
import Meshezia.Server.Static
import Meshezia.Agent.Monitor
import Meshezia.Agent.Reconciler
import Meshezia.Agent.RelayProxy
import Meshezia.Agent.Negotiate
import Meshezia.Agent.Step
import Meshezia.Agent.Modes
import Meshezia.Agent.Paths
import Meshezia.Agent.Races
import Meshezia.Agent.Probes
import Meshezia.Agent.Release
import Meshezia.Agent.Leaks
import Meshezia.Agent.Evidence
import Meshezia.Agent.Reconcile
import Meshezia.Agent.Converge
import Meshezia.Agent.Books
import Meshezia.Agent.Mappings
import Meshezia.Agent.Saving
import Meshezia.Agent.Ports
import Meshezia.Agent.PortDraws
import Meshezia.Agent.Ticks
import Meshezia.Agent.Taint
import Meshezia.Agent.Frozen
import Meshezia.Agent.Kernel
import Meshezia.Agent.Turns
import Meshezia.Agent.Routing
import Meshezia.Agent.Devices
import Meshezia.Agent.Ledger
import Meshezia.Agent.Session
import Meshezia.System.Step
import Meshezia.System.Ends
import Meshezia.System.DirectProbe
import Meshezia.System.Transport
import Meshezia.System.Mesh
import Meshezia.System.Quiet
import Meshezia.System.Enrolment
import Meshezia.System.Stranded
import Meshezia.System.Probing
import Meshezia.System.Reached
import Meshezia.System.Heartbeat
import Meshezia.Api.Validate
import Meshezia.Api.Subnet
import Meshezia.Api.Allocation
import Meshezia.Api.Codec
import Meshezia.Api.Tables
import Meshezia.Api.Handlers
import Meshezia.Api.Failed
import Meshezia.Api.Reads
import Meshezia.Api.Reports
import Meshezia.Api.Step
import Meshezia.Api.Writes
import Meshezia.Api.Effects
import Meshezia.Api.Tenants
import Meshezia.Api.TenantReads
import Meshezia.Api.PairConfigs
import Meshezia.Api.Registration
import Meshezia.Api.Addresses
import Meshezia.Api.Config
import Meshezia.Api.AwgParams
import Meshezia.Api.LastSeen
