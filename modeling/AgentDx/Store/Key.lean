import AgentDx.Dfs.Types

/-!
# Keys of the metadata store

Authority entities are kept in one ordered map.  Its key order is the derived
one: the position of the variant first, then the fields from left to right,
strings and file names bytewise.  Recovery, garbage collection and history
retention all iterate in this order, so the model reproduces it: a key is
compared through its rank, and the rank determines the key.
-/

namespace AgentDx.Store

open Dfs Std

/-- Stable idempotency key provided by remote callers. -/
structure RequestKey where
  callerId : String
  requestId : String
  deriving DecidableEq

def RequestKey.isValid (key : RequestKey) : Bool := !key.callerId.isEmpty && !key.requestId.isEmpty

instance : Ord RequestKey where
  compare := compareLex (compareOn RequestKey.callerId) (compareOn RequestKey.requestId)

instance : TransOrd RequestKey :=
  inferInstanceAs (TransCmp (compareLex (compareOn RequestKey.callerId)
    (compareOn RequestKey.requestId)))

instance : LawfulEqOrd RequestKey where
  eq_of_compare {left right} heq := by
    have hfields := compareLex_eq_eq.mp heq
    cases left
    cases right
    simpa [compareOn] using hfields

/-- Key shapes used by the entity map, transaction conditions and deletes. -/
inductive MetaKey where
  | nodeSession (nodeId sessionId : String)
  | currentNodeSession (nodeId : String)
  | currentNodeSessions
  | root (rootId : String)
  | rootReservation (rootId : String)
  | rootGrant (rootId holderNodeId holderSessionId : String)
  | rootCommand (commandId : String)
  | rootCommandAck (commandId homeNodeId homeSessionId : String)
  | requestOutcome (request : RequestKey)
  | dfsDentry (key : DentryKey)
  | dfsInode (id : InodeId)
  | dfsFileVersion (id : FileVersionId)
  | dfsLayoutRoot (id : LayoutRootId)
  | dfsChunk (id : ChunkId)
  | dfsReplicationConfig
  | dfsDurabilityPolicy
  | dfsPlacement (id : ChunkId)
  | dfsCopy (id : CopyId)
  | dfsReplicationTask (id : ReplicationTaskId)
  | dfsWriteLease (id : InodeId)
  | rootEpochWatermark
  | dfsReference (nodeId sessionId referenceId : String)
  | dfsGc
  deriving DecidableEq

/-- Position of the variant in the declaration, and its fields in order: first
the strings, then the raw bytes of a file name. -/
def MetaKey.rank : MetaKey → ℕ × List String × Bytes
  | .nodeSession nodeId sessionId => (0, [nodeId, sessionId], [])
  | .currentNodeSession nodeId => (1, [nodeId], [])
  | .currentNodeSessions => (2, [], [])
  | .root rootId => (3, [rootId], [])
  | .rootReservation rootId => (4, [rootId], [])
  | .rootGrant rootId holderNodeId holderSessionId =>
    (5, [rootId, holderNodeId, holderSessionId], [])
  | .rootCommand commandId => (6, [commandId], [])
  | .rootCommandAck commandId homeNodeId homeSessionId =>
    (7, [commandId, homeNodeId, homeSessionId], [])
  | .requestOutcome request => (8, [request.callerId, request.requestId], [])
  | .dfsDentry key => (9, [key.namespaceId, key.parentInodeId], key.name)
  | .dfsInode id => (10, [id], [])
  | .dfsFileVersion id => (11, [id], [])
  | .dfsLayoutRoot id => (12, [id], [])
  | .dfsChunk id => (13, [id], [])
  | .dfsReplicationConfig => (14, [], [])
  | .dfsDurabilityPolicy => (15, [], [])
  | .dfsPlacement id => (16, [id], [])
  | .dfsCopy id => (17, [id], [])
  | .dfsReplicationTask id => (18, [id], [])
  | .dfsWriteLease id => (19, [id], [])
  | .rootEpochWatermark => (20, [], [])
  | .dfsReference nodeId sessionId referenceId =>
    (21, [nodeId, sessionId, referenceId], [])
  | .dfsGc => (22, [], [])

private def unrankKey : ℕ × List String × Bytes → Option MetaKey
  | (0, [nodeId, sessionId], _) => some (.nodeSession nodeId sessionId)
  | (1, [nodeId], _) => some (.currentNodeSession nodeId)
  | (2, _, _) => some .currentNodeSessions
  | (3, [rootId], _) => some (.root rootId)
  | (4, [rootId], _) => some (.rootReservation rootId)
  | (5, [rootId, nodeId, sessionId], _) =>
    some (.rootGrant rootId nodeId sessionId)
  | (6, [commandId], _) => some (.rootCommand commandId)
  | (7, [commandId, nodeId, sessionId], _) =>
    some (.rootCommandAck commandId nodeId sessionId)
  | (8, [callerId, requestId], _) =>
    some (.requestOutcome ⟨callerId, requestId⟩)
  | (9, [namespaceId, parent], name) =>
    some (.dfsDentry ⟨namespaceId, parent, name⟩)
  | (10, [id], _) => some (.dfsInode id)
  | (11, [id], _) => some (.dfsFileVersion id)
  | (12, [id], _) => some (.dfsLayoutRoot id)
  | (13, [id], _) => some (.dfsChunk id)
  | (14, _, _) => some .dfsReplicationConfig
  | (15, _, _) => some .dfsDurabilityPolicy
  | (16, [id], _) => some (.dfsPlacement id)
  | (17, [id], _) => some (.dfsCopy id)
  | (18, [id], _) => some (.dfsReplicationTask id)
  | (19, [id], _) => some (.dfsWriteLease id)
  | (20, _, _) => some .rootEpochWatermark
  | (21, [nodeId, sessionId, referenceId], _) =>
    some (.dfsReference nodeId sessionId referenceId)
  | (22, _, _) => some .dfsGc
  | _ => none

lemma MetaKey.rank_injective : Function.Injective MetaKey.rank := by
  have hinverse : ∀ key : MetaKey, unrankKey key.rank = some key := by
    intro key
    cases key <;> rfl
  intro left right heq
  have hsome : some left = some right := by
    rw [← hinverse left, ← hinverse right, heq]
  exact Option.some.inj hsome

instance : Ord MetaKey where
  compare := compareLex (compareOn fun key : MetaKey => key.rank.1)
    (compareLex (compareOn fun key : MetaKey => key.rank.2.1)
      (compareOn fun key : MetaKey => key.rank.2.2))

instance : TransOrd MetaKey :=
  inferInstanceAs (TransCmp (compareLex (compareOn fun key : MetaKey => key.rank.1)
    (compareLex (compareOn fun key : MetaKey => key.rank.2.1)
      (compareOn fun key : MetaKey => key.rank.2.2))))

instance : LawfulEqOrd MetaKey where
  eq_of_compare {left right} heq := by
    obtain ⟨htag, hrest⟩ := compareLex_eq_eq.mp heq
    obtain ⟨hstrings, hname⟩ := compareLex_eq_eq.mp hrest
    apply MetaKey.rank_injective
    simp only [compareOn, Std.compare_eq_iff_eq] at htag hstrings hname
    exact Prod.ext htag (Prod.ext hstrings hname)

end AgentDx.Store
