import AgentDx.Store.Idempotence
import AgentDx.Store.MemoryLog
import AgentDx.Store.Protection
import AgentDx.Store.RoundTrip
import AgentDx.Store.Sessions
import AgentDx.Store.Reopen
import AgentDx.Dfs.LeaseFencing
import AgentDx.Dfs.NamespaceSafety
import AgentDx.Locks.Deadlock
import AgentDx.Fuse.FrontOrder
import AgentDx.Vfs.OwnerOnce
import AgentDx.Roots.Generation
import AgentDx.Ring.Answered
import AgentDx.Execd.Undone
import AgentDx.Adxlet.JournalOrder
import AgentDx.Platform.Placement
import AgentDx.Platform.RuntimeIds
import AgentDx.Coordinator.Artifacts
import AgentDx.Coordinator.NodeLoss
import AgentDx.Vfs.ReadIndex
import AgentDx.Dfs.Replicas
import AgentDx.Dfs.ChunkIds
import AgentDx.Dfs.ReadGrants
import AgentDx.Agent.Mounts
import AgentDx.Agent.Routing
