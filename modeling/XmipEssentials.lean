import XmipEssentials.Lib.Prog
import XmipEssentials.Lib.Transcript
import XmipEssentials.Lib.Text
import XmipEssentials.Lib.Files
import XmipEssentials.Lib.Window
import XmipEssentials.Lib.Dealing
import XmipEssentials.Lib.Padding
import XmipEssentials.Lib.Cyclic
import XmipEssentials.Lib.Escalation
import XmipEssentials.Lib.Quoting
import XmipEssentials.Verdict
import XmipEssentials.Roster
import XmipEssentials.Observe
import XmipEssentials.Ledger
import XmipEssentials.Fault
import XmipEssentials.Firing
import XmipEssentials.Identity
import XmipEssentials.Rotation
import XmipEssentials.Patterned
import XmipEssentials.Trade
import XmipEssentials.Handoff
import XmipEssentials.Relay
import XmipEssentials.Schedule
import XmipEssentials.Loads
import XmipEssentials.Documents
import XmipEssentials.HeavyLoad
import XmipEssentials.Ceilings
import XmipEssentials.Placement
import XmipEssentials.Roles
import XmipEssentials.Records
import XmipEssentials.Board
import XmipEssentials.MovedBytes
import XmipEssentials.Cluster.Rollup
import XmipEssentials.Cluster.Member
import XmipEssentials.Cluster.Tick
import XmipEssentials.Cluster.View
import XmipEssentials.Cluster.Carried
import XmipEssentials.Cluster.Torn
import XmipEssentials.Cluster.Lives
import XmipEssentials.Cluster.Freshness
import XmipEssentials.Cluster.Allowance
import XmipEssentials.Cluster.Publish
import XmipEssentials.Subscribing
import XmipEssentials.Node
import XmipEssentials.Cluster.Orders
import XmipEssentials.OneWriter
import XmipEssentials.ExclusiveClaim.Pickup
import XmipEssentials.ExclusiveClaim.Judge
import XmipEssentials.ExclusiveClaim.Lane
import XmipEssentials.ExclusiveClaim.Readers
import XmipEssentials.ExclusiveClaim.Drained
import XmipEssentials.ExclusiveClaim.Unshared
import XmipEssentials.ExclusiveClaim.Shared
import XmipEssentials.Cluster.Spawn
import XmipEssentials.Image
import XmipEssentials.Retention
import XmipEssentials.Overdue
import XmipEssentials.History
import XmipEssentials.DailyBacklog
import XmipEssentials.Recovery
import XmipEssentials.DropBox.Dropping
import XmipEssentials.DropBox.Judging
import XmipEssentials.Topology
import XmipEssentials.Links
import XmipEssentials.LockStep.Inboxes
import XmipEssentials.ClaimOrder
import XmipEssentials.LockStep.Ticks
import XmipEssentials.LockStep.Drain
import XmipEssentials.FairRotation
import XmipEssentials.Passage.Calls
import XmipEssentials.Passage.Relaying
import XmipEssentials.Passage.Alone
import XmipEssentials.Passage.Conserved
import XmipEssentials.Passage.Overwritten
import XmipEssentials.Workers
import XmipEssentials.Eventing
import XmipEssentials.LowLatency
import XmipEssentials.Percentile
import XmipEssentials.LockStep.Figures
import XmipEssentials.LockStep.Held
import XmipEssentials.LockStep.Perfect
import XmipEssentials.LockStep.Turn
import XmipEssentials.LockStep.Stages
import XmipEssentials.LockStep.Crew
import XmipEssentials.LockStep.Agreement
import XmipEssentials.Database
import XmipEssentials.Heartbeat
import XmipEssentials.Cluster.Spawned
import XmipEssentials.Lib.Tabled
import XmipEssentials.Standings
import XmipEssentials.Storm
import XmipEssentials.Cabinets
import XmipEssentials.Filing
import XmipEssentials.Lib.Flags
import XmipEssentials.Commands
import XmipEssentials.CarriedFiles
import XmipEssentials.Lib.Guarded
import XmipEssentials.Served
import XmipEssentials.InProcess
import XmipEssentials.RealNodes
