import AgentDx.Error
import AgentDx.Store.Key

/-!
# Entities, transactions and their outcomes

A metadata transaction is a list of conditions, checked in one writer turn, and
a list of mutations that become durable together.  It must test that its own
request is absent and record an outcome for it; `MetaTxn.validate` is the check
every transaction passes before the store applies it.

Rust values own buffers whose capacity may exceed their contents.  The retention
and read budgets charge capacities, and a clone allocates exactly what it needs,
so the spare capacity of a value handed in by a caller is part of the model:
`Owned` pairs a value with the bytes its buffers hold in excess.
-/

namespace AgentDx.Store

open Dfs

/-- A value together with the buffer bytes it owns beyond those of a clone. -/
structure Owned (A : Type) where
  value : A
  spare : ℕ
  deriving DecidableEq

/-- A freshly cloned value: its buffers hold exactly their contents. -/
def Owned.exact {A : Type} (value : A) : Owned A := ⟨value, 0⟩

/-- One process lifetime of a node as registered in the store. -/
structure NodeSession where
  nodeId : String
  sessionId : String
  grpcAddr : String
  dataAddr : String
  restAddr : String
  ownerfsEnabled : Bool
  storageDevices : List StorageDeviceDescriptor
  leaseEpoch : ℕ
  expiresAtUnixMs : ℕ
  deriving DecidableEq

/-- A session whose deadline equals the clock is already expired. -/
def NodeSession.isLiveAtUnixMs (session : NodeSession) (nowUnixMs : ℕ) : Bool :=
  decide (nowUnixMs < session.expiresAtUnixMs)

/-- Input used to create or renew a node session. -/
structure NodeSessionLease where
  nodeId : String
  sessionId : String
  grpcAddr : String
  dataAddr : String
  restAddr : String
  ownerfsEnabled : Bool
  storageDevices : List StorageDeviceDescriptor
  leaseTtlNanos : ℕ
  deriving DecidableEq

structure RootRecord where
  rootId : String
  rootEpoch : ℕ
  homeNodeId : String
  homeSessionId : String
  localPrepareId : String
  createdAtRevision : ℕ
  updatedAtRevision : ℕ
  deriving DecidableEq

structure RootReservationRecord where
  rootId : String
  rootEpoch : ℕ
  homeNodeId : String
  homeSessionId : String
  createIntentId : String
  prepareToken : String
  requesterNodeId : String
  requesterSessionId : String
  createdAtRevision : ℕ
  deriving DecidableEq

inductive RootRight where
  | lookup
  | read
  | write
  | admin
  deriving DecidableEq

structure RootAccessGrant where
  rootId : String
  rootEpoch : ℕ
  homeNodeId : String
  homeSessionId : String
  holderNodeId : String
  holderSessionId : String
  accessGeneration : ℕ
  rights : List RootRight
  fencingToken : String
  issuedAtRevision : ℕ
  deriving DecidableEq

inductive RootCommandType where
  | revokeAccess
  | invalidateCache
  deriving DecidableEq

structure RootCommandAck where
  commandId : String
  nodeId : String
  sessionId : String
  rootId : String
  rootEpoch : ℕ
  accessGeneration : ℕ
  success : Bool
  message : String
  deriving DecidableEq

structure RootCommandRecord where
  commandId : String
  homeNodeId : String
  homeSessionId : String
  rootId : String
  rootEpoch : ℕ
  oldAccessGeneration : ℕ
  commandType : RootCommandType
  deriving DecidableEq

/-- The records kept by the store. -/
inductive MetaEntity where
  | nodeSession (session : NodeSession)
  | rootReservation (reservation : RootReservationRecord)
  | root (root : RootRecord)
  | rootGrant (grant : RootAccessGrant)
  | rootCommand (command : RootCommandRecord)
  | rootCommandAck (ack : RootCommandAck)
  | dfsDentry (dentry : Dentry)
  | dfsInode (inode : InodeRecord)
  | dfsFileVersion (version : FileVersion)
  | dfsLayoutRoot (layout : LayoutRoot)
  | dfsChunk (chunk : ChunkObject)
  | dfsReplicationConfig (config : ReplicationConfig)
  | dfsDurabilityPolicy (policy : DfsDurabilityPolicy)
  | dfsPlacement (placement : PlacementRecord)
  | dfsCopy (copy : CopyRecord)
  | dfsReplicationTask (task : ReplicationTask)
  | dfsWriteLease (lease : WriteLease)
  /-- Latest issued root incarnation; never removed with a root. -/
  | rootEpochWatermark (value : ℕ)
  | dfsReference (reference : GcReference)
  | dfsGc (state : GcState)
  deriving DecidableEq

/-- The key under which a transaction puts an entity. -/
def entityKey : MetaEntity → MetaKey
  | .rootEpochWatermark _ => .rootEpochWatermark
  | .dfsReference reference =>
    .dfsReference reference.nodeId reference.sessionId reference.referenceId
  | .dfsGc _ => .dfsGc
  | .nodeSession session => .nodeSession session.nodeId session.sessionId
  | .rootReservation reservation => .rootReservation reservation.rootId
  | .root root => .root root.rootId
  | .rootGrant grant =>
    .rootGrant grant.rootId grant.holderNodeId grant.holderSessionId
  | .rootCommand command => .rootCommand command.commandId
  | .rootCommandAck ack => .rootCommandAck ack.commandId ack.nodeId ack.sessionId
  | .dfsDentry dentry => .dfsDentry dentry.key
  | .dfsInode inode => .dfsInode inode.inodeId
  | .dfsFileVersion version => .dfsFileVersion version.id
  | .dfsLayoutRoot layout => .dfsLayoutRoot layout.id
  | .dfsChunk chunk => .dfsChunk chunk.id
  | .dfsReplicationConfig _ => .dfsReplicationConfig
  | .dfsDurabilityPolicy _ => .dfsDurabilityPolicy
  | .dfsPlacement placement => .dfsPlacement placement.chunkId
  | .dfsCopy copy => .dfsCopy copy.id
  | .dfsReplicationTask task => .dfsReplicationTask task.id
  | .dfsWriteLease lease => .dfsWriteLease lease.inodeId

/-- Condition checked inside a single durable transaction. -/
inductive TxnCondition where
  | rootEpochWatermarkEquals (expected : ℕ)
  | storeRevisionEquals (revision : ℕ)
  | missing (key : MetaKey)
  | revisionEquals (key : MetaKey) (revision : ℕ)
  | entityEquals (entity : MetaEntity)
  | nodeSessionCurrent (nodeId sessionId : String)
  | nodeSessionExpired (nodeId sessionId : String)
  | rootEpochEquals (rootId : String) (rootEpoch : ℕ)
  | rootCommandAcked (commandId nodeId sessionId : String)
  | rootCommandMatches (commandId homeNodeId homeSessionId rootId : String)
      (rootEpoch oldAccessGeneration : ℕ) (commandType : RootCommandType)
  | rootCommandAckedExact (commandId nodeId sessionId rootId : String)
      (rootEpoch accessGeneration : ℕ) (commandType : RootCommandType)
  | requestAbsent (request : RequestKey)
  | dfsDirectoryEmpty (namespaceId : NamespaceId) (parentInodeId : InodeId)
  | dfsNotDescendant (namespaceId : NamespaceId)
      (ancestorInodeId childInodeId : InodeId)
  deriving DecidableEq

/-- Operation identity, recorded with every outcome. -/
inductive StoreOperation where
  | registerNode
  | reserveRoot
  | abortRoot
  | deactivateRoot
  | activateRoot
  | acquireRoot
  | recoverRoot
  | beginRootRevocation
  | commitRootRevocation
  | ackRootCommand
  | dfsCreate
  | dfsMkdir
  | dfsMknod
  | dfsInitializeNamespace
  | dfsUnlink
  | dfsRmdir
  | dfsRename
  | dfsLink
  | dfsSymlink
  | dfsSetInodeAttributes
  | dfsSetXattr
  | dfsRemoveXattr
  | dfsAcquireWriteLease
  | dfsRenewWriteLease
  | dfsSyncInodeMetadata
  | dfsCommitFileVersion
  | dfsInitializeReplicationConfig
  | dfsInitializeDurabilityPolicy
  | dfsClaimReplicationTask
  | dfsReportReplicationTask
  | dfsReportChunkCorruption
  | cleanupRootGrants
  | cleanupRootCommands
  | dfsUpdateReference
  | dfsCollectGarbage
  deriving DecidableEq

/-- Operation result that is replayed to idempotent callers. -/
inductive OperationResult where
  | dfsNamespace (requestDigest : Digest) (result : OperationResult)
  | nodeSession (session : NodeSession)
  | rootReservation (reservation : RootReservationRecord)
  | rootRecord (root : RootRecord)
  | rootGrant (grant : RootAccessGrant)
  | rootCommand (command : RootCommandRecord)
  | rootCommandAck (ack : RootCommandAck)
  | dfsInode (inode : InodeRecord)
  | dfsInodeWithLease (inode : InodeRecord) (lease : WriteLease)
  | dfsWriteLease (lease : WriteLease)
  | dfsReplicationClaim (requestDigest : Digest)
      (claim : Option ReplicationClaim)
  | dfsReplicationTask (task : ReplicationTask)
  | dfsRename (outcome : RenameOutcome)
  | empty
  deriving DecidableEq

/-- Idempotent result stored in the same transaction as the mutation. -/
structure RequestOutcome where
  request : RequestKey
  operation : StoreOperation
  result : OperationResult
  deriving DecidableEq

/-- An outcome as its owner holds it.  `spare` is the excess of the whole
outcome and `keySpare` the share of it inside the request key, which the
retention charge counts again for every retained copy of the key. -/
structure OwnedOutcome where
  outcome : RequestOutcome
  spare : ℕ
  keySpare : ℕ
  deriving DecidableEq

/-- A cloned outcome. -/
def OwnedOutcome.exact (outcome : RequestOutcome) : OwnedOutcome := ⟨outcome, 0, 0⟩

/-- Mutation written inside a single durable transaction. -/
inductive TxnMutation where
  | put (entity : Owned MetaEntity)
  | delete (key : Owned MetaKey)
  | recordRequestOutcome (outcome : OwnedOutcome)
  deriving DecidableEq

/-- Conditional transaction plus the outcome recorded atomically with it. -/
structure MetaTxn where
  request : RequestKey
  operation : StoreOperation
  conditions : List TxnCondition
  mutations : List TxnMutation
  deriving DecidableEq

/-- The outcome a mutation records, if it records one. -/
def TxnMutation.outcome? : TxnMutation → Option RequestOutcome
  | .recordRequestOutcome owned => some owned.outcome
  | _ => none

/-- The outcomes a transaction records, in mutation order. -/
def MetaTxn.outcomes (txn : MetaTxn) : List RequestOutcome :=
  txn.mutations.filterMap TxnMutation.outcome?

/-- The mutation owns no buffer capacity beyond its contents. -/
def TxnMutation.spareFree : TxnMutation → Bool
  | .put entity => decide (entity.spare = 0)
  | .delete key => decide (key.spare = 0)
  | .recordRequestOutcome owned =>
    decide (owned.spare = 0) && decide (owned.keySpare = 0)

def MetaTxn.spareFree (txn : MetaTxn) : Bool := txn.mutations.all TxnMutation.spareFree

/-- The watermark may only advance together with a reservation of the new
epoch, or be captured once from existing records; it is never deleted. -/
def MetaTxn.validateMutation (txn : MetaTxn) : TxnMutation → Result Unit
  | .delete ⟨.rootEpochWatermark, _⟩ =>
    .error (invalidContract "root epoch watermark cannot be deleted")
  | .put ⟨.rootEpochWatermark value, _⟩ =>
    let allocated := txn.conditions.any fun
      | .rootEpochWatermarkEquals previous => decide (previous < value)
      | _ => false
    let reserved := txn.mutations.any fun
      | .put ⟨.rootReservation root, _⟩ => decide (root.rootEpoch = value)
      | _ => false
    let bootstrap := decide (txn.operation = .cleanupRootGrants) && (txn.conditions.any fun
        | .missing .rootEpochWatermark => true
        | _ => false) && (txn.conditions.any fun
        | .rootEpochWatermarkEquals previous => decide (value = previous)
        | _ => false)
    ensure (bootstrap || (decide (txn.operation = .reserveRoot) && allocated && reserved))
      (invalidContract "root epoch watermark requires an atomic reservation or initial capture")
  | _ => .ok ()

/-- Rejects contract-breaking transactions before they reach a backend. -/
def MetaTxn.validate (txn : MetaTxn) : Result Unit := do
  ensure txn.request.isValid (invalidContract "request key must include caller_id and request_id")
  ensure (!txn.conditions.isEmpty) (invalidContract "transaction must include conditions")
  ensure (!txn.mutations.isEmpty) (invalidContract "transaction must include mutations")
  txn.mutations.forM txn.validateMutation
  ensure (txn.conditions.any fun
      | .requestAbsent key => decide (key = txn.request)
      | _ => false)
    (invalidContract "transaction must condition on absent request outcome")
  ensure (txn.mutations.any fun
      | .recordRequestOutcome owned =>
        decide (owned.outcome.request = txn.request) &&
          decide (owned.outcome.operation = txn.operation)
      | _ => false)
    (invalidContract "transaction must record matching request outcome")

/-- Result of a conditional transaction. -/
inductive TxnOutcome where
  | committed (revision : ℕ) (outcome : RequestOutcome)
  | conditionFailed (revision : ℕ) (existingOutcome : Option RequestOutcome)
  deriving DecidableEq

inductive WatchChange where
  | put (entity : MetaEntity)
  | delete
  deriving DecidableEq

/-- Ordered change stream item. -/
structure WatchEvent where
  revision : ℕ
  eventIndex : ℕ
  key : MetaKey
  change : WatchChange
  deriving DecidableEq

end AgentDx.Store
