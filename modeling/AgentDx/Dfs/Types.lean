import Mathlib

/-!
# Shared identities and records of the distributed file system

Mutable POSIX state is an inode record whose head points at an immutable file
version.  A version owns an immutable extent layout and every extent refers to
an immutable chunk; physical copies are tracked separately.  These are the
records as the metadata store keeps them.  Identities are strings, file names
are raw bytes and machine counters are naturals: the functions that check or
saturate a counter do so explicitly.
-/

namespace AgentDx.Dfs

abbrev Bytes := List UInt8

abbrev NamespaceId := String
abbrev InodeId := String
abbrev FileVersionId := String
abbrev LayoutRootId := String
abbrev ChunkId := String
abbrev CopyId := String
abbrev OperationId := String
abbrev ReplicaGroupId := String
abbrev ReplicationTaskId := String

/-- A 32-byte digest. -/
abbrev Digest := BitVec 256

inductive SpecialNodeKind where
  | fifo
  | socket
  | blockDevice (rdev : ℕ)
  | charDevice (rdev : ℕ)
  deriving DecidableEq

inductive InodeKind where
  | regular
  | directory
  | symlink
  | special (kind : SpecialNodeKind)
  deriving DecidableEq

structure InodeAttributes where
  mode : ℕ
  uid : ℕ
  gid : ℕ
  nlink : ℕ
  atimeUnixMs : ℕ
  mtimeUnixMs : ℕ
  ctimeUnixMs : ℕ
  deriving DecidableEq

structure InodeRecord where
  namespaceId : NamespaceId
  inodeId : InodeId
  kind : InodeKind
  attributes : InodeAttributes
  headVersion : Option FileVersionId
  symlinkTarget : Option Bytes
  /-- The extended attributes in key order. -/
  xattrs : List (Bytes × Bytes)
  revision : ℕ
  deriving DecidableEq

structure DentryKey where
  namespaceId : NamespaceId
  parentInodeId : InodeId
  name : Bytes
  deriving DecidableEq

structure Dentry where
  key : DentryKey
  inodeId : InodeId
  deriving DecidableEq

structure RenameOutcome where
  inode : InodeRecord
  replacedInode : Option InodeRecord
  deriving DecidableEq

structure FileVersion where
  id : FileVersionId
  inodeId : InodeId
  parentVersion : Option FileVersionId
  length : ℕ
  layoutRoot : LayoutRootId
  createdAtUnixMs : ℕ
  deriving DecidableEq

structure Extent where
  fileOffset : ℕ
  length : ℕ
  chunkId : ChunkId
  chunkOffset : ℕ
  deriving DecidableEq

structure LayoutRoot where
  id : LayoutRootId
  fileLength : ℕ
  inlineExtents : List Extent
  deriving DecidableEq

inductive DigestAlgorithm where
  | blake3
  /-- A binding of a checksum table, never a root of the body. -/
  | crc32cSegmentsV1
  deriving DecidableEq

structure ContentDigest where
  algorithm : DigestAlgorithm
  bytes : Digest
  deriving DecidableEq

inductive ChunkEncoding where
  | raw
  deriving DecidableEq

structure ChunkObject where
  id : ChunkId
  length : ℕ
  contentDigest : ContentDigest
  encoding : ChunkEncoding
  deriving DecidableEq

inductive DfsDurabilityPolicy where
  | nodeReplicated
  | externalBackend (storeId generation : String)
  deriving DecidableEq

inductive LocalCopyPolicy where
  | required
  | preferred
  | notRequired
  deriving DecidableEq

structure ReplicationConfig where
  desiredCopies : ℕ
  syncRequiredCopies : ℕ
  minDistinctNodes : ℕ
  minDistinctFailureDomains : ℕ
  localCopy : LocalCopyPolicy
  deriving DecidableEq

structure StorageDeviceDescriptor where
  deviceId : String
  deviceEpoch : ℕ
  catalogRevision : ℕ
  failureDomain : String
  deriving DecidableEq

structure ReplicaTarget where
  nodeId : String
  nodeEpoch : ℕ
  dataEndpoint : String
  device : StorageDeviceDescriptor
  deriving DecidableEq

structure ReplicaGroup where
  id : ReplicaGroupId
  placementEpoch : ℕ
  targets : List ReplicaTarget
  deriving DecidableEq

inductive CopyRole where
  | durableReplica
  | verifiedCache
  | externalCommitted
  deriving DecidableEq

inductive CopyState where
  | legacyStaging
  | ready
  | corrupt
  | deleting
  deriving DecidableEq

inductive CopyLocation where
  | node (nodeId : String) (nodeEpoch : ℕ) (deviceId : String)
      (deviceEpoch catalogRevision : ℕ)
  | external (storeId objectKey objectRevision : String)
  deriving DecidableEq

structure CopyRecord where
  id : CopyId
  chunkId : ChunkId
  role : CopyRole
  location : CopyLocation
  state : CopyState
  persistedBytes : ℕ
  verifiedDigest : ContentDigest
  deriving DecidableEq

inductive PlacementHealth where
  | satisfied
  | underReplicated
  | blockedNoSource
  deriving DecidableEq

structure PlacementRecord where
  chunkId : ChunkId
  replicaGroupId : ReplicaGroupId
  placementEpoch : ℕ
  desiredCopies : ℕ
  copies : List CopyId
  health : PlacementHealth
  deriving DecidableEq

inductive ReplicationTaskState where
  | pending
  | running
  | retryWaiting
  | completed
  | blockedNoSource
  deriving DecidableEq

structure ReplicationClaim where
  taskId : ReplicationTaskId
  operationId : OperationId
  workerNodeId : String
  workerNodeEpoch : ℕ
  workerSessionId : String
  expiresAtUnixMs : ℕ
  fence : ℕ
  chunk : ChunkObject
  sourceCopyId : CopyId
  placementRevision : ℕ
  replicaGroup : ReplicaGroup
  replication : ReplicationConfig
  deriving DecidableEq

structure ReplicationTask where
  id : ReplicationTaskId
  chunkId : ChunkId
  placementEpoch : ℕ
  desiredCopies : ℕ
  existingCopies : List CopyId
  state : ReplicationTaskState
  attempt : ℕ
  nextRetryUnixMs : ℕ
  lastError : Option String
  claim : Option ReplicationClaim
  deriving DecidableEq

structure WriteLease where
  inodeId : InodeId
  ownerNodeId : String
  ownerSessionId : String
  leaseEpoch : ℕ
  expiresAtUnixMs : ℕ
  deriving DecidableEq

/-- Immutable version held by one native read-only open. -/
structure OpenReadIdentity where
  versionId : FileVersionId
  layoutRootId : LayoutRootId
  closed : Bool
  deriving DecidableEq

structure GcReference where
  nodeId : String
  sessionId : String
  referenceId : String
  inodeId : Option InodeId
  publication : Bool
  chunks : List ChunkObject
  retiredAtUnixMs : Option ℕ
  openRead : Option OpenReadIdentity
  deriving DecidableEq

structure GcState where
  generation : ℕ
  chunks : List ChunkId
  waitingNodes : List String
  deriving DecidableEq

end AgentDx.Dfs
