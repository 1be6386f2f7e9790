import Rivloom.Agent.Registry
import Rivloom.Agent.Residency
import Rivloom.AppServer.Decoder
import Rivloom.AppServer.EventRouter
import Rivloom.AppServer.RunStream
import Rivloom.AppServer.Supervisor
import Rivloom.ApplyPatch.Apply
import Rivloom.ApplyPatch.Delta
import Rivloom.ApplyPatch.FileUpdate
import Rivloom.ApplyPatch.Hunks
import Rivloom.ApplyPatch.LineEndings
import Rivloom.ApplyPatch.Parser
import Rivloom.ApplyPatch.Preview
import Rivloom.ApplyPatch.Regions
import Rivloom.ApplyPatch.RoundTrip
import Rivloom.ApplyPatch.TurnDiff
import Rivloom.ApplyPatch.TurnDiffTracker
import Rivloom.Collaboration.Brain
import Rivloom.Collaboration.BrainCodec
import Rivloom.Collaboration.BrainInvariant
import Rivloom.Collaboration.BrainOps
import Rivloom.Collaboration.BrainSteps
import Rivloom.Collaboration.BrainTasks
import Rivloom.Collaboration.BrainValid
import Rivloom.Collaboration.Convergence
import Rivloom.Collaboration.Credential
import Rivloom.Collaboration.Durability
import Rivloom.Collaboration.ExactlyOnce
import Rivloom.Collaboration.Host
import Rivloom.Collaboration.HostGate
import Rivloom.Collaboration.HostSteps
import Rivloom.Collaboration.Invitation
import Rivloom.Collaboration.InvitationLife
import Rivloom.Collaboration.Node
import Rivloom.Collaboration.NodeSafety
import Rivloom.Collaboration.NodeSteps
import Rivloom.Collaboration.Outbox
import Rivloom.Collaboration.Protocol
import Rivloom.Collaboration.Reconcile
import Rivloom.Collaboration.Revocation
import Rivloom.Collaboration.Sizes
import Rivloom.Collaboration.Snapshot
import Rivloom.Collaboration.SnapshotFile
import Rivloom.Collaboration.Stamps
import Rivloom.Collaboration.Storage
import Rivloom.Collaboration.SyncComplete
import Rivloom.Collaboration.Wire
import Rivloom.ExecPolicy.Amendment
import Rivloom.ExecPolicy.Approval
import Rivloom.ExecPolicy.Policy
import Rivloom.ExecPolicy.Requirements
import Rivloom.Lib.Action
import Rivloom.Lib.BothEnds
import Rivloom.Lib.ChangeLog
import Rivloom.Lib.Codec
import Rivloom.Lib.CodecPath
import Rivloom.Lib.CodecRecord
import Rivloom.Lib.CodecSize
import Rivloom.Lib.Feed
import Rivloom.Lib.FreshName
import Rivloom.Lib.Glob
import Rivloom.Lib.Json
import Rivloom.Lib.JsonParse
import Rivloom.Lib.JsonPretty
import Rivloom.Lib.ListEdit
import Rivloom.Lib.MultiMap
import Rivloom.Lib.NetChange
import Rivloom.Lib.Replica
import Rivloom.Lib.Run
import Rivloom.Lib.RustStd
import Rivloom.Lib.RustText
import Rivloom.Lib.Sha256
import Rivloom.Lib.SortedMap
import Rivloom.Lib.Splice
import Rivloom.Lib.StrMap
import Rivloom.Lib.Tally
import Rivloom.Mcp.ToolNames
import Rivloom.NetworkProxy.Allowlist
import Rivloom.NetworkProxy.BlockedLog
import Rivloom.NetworkProxy.Constraints
import Rivloom.NetworkProxy.DomainPattern
import Rivloom.Output.Truncation
import Rivloom.Path.AbsolutePath
import Rivloom.Project.Recent
import Rivloom.Sandbox.EntryOrder
import Rivloom.Sandbox.FileSystemPolicy
import Rivloom.Sandbox.FullDisk
import Rivloom.Sandbox.WritableRoots
import Rivloom.Session.ContextManager
import Rivloom.Session.Normalize
import Rivloom.Session.ResponseItem
import Rivloom.Session.RollbackCompose
import Rivloom.Session.WorldState
import Rivloom.UnifiedExec.HeadTailBuffer
