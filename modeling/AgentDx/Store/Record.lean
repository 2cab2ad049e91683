import AgentDx.Store.Apply

/-!
# Canonical log records

A durable record holds a decision that was already made: the changed keys, the
original outcomes and the completion time.  Each distinct entity payload occurs
once in a value pool, and changes and outcomes refer to it by position.  Replay
derives watch events and outcomes from the record alone; no condition is
evaluated and no clock is read again.
-/

namespace AgentDx.Store

open Dfs Std Word

def maxNesting : ℕ := 128
def maxItems : ℕ := 65536
def recordItems : ℕ := 4 * maxItems

/-- Position of a value in its pool. -/
abbrev ValueId := ℕ

inductive Change where
  | put (key : MetaKey) (value : ValueId)
  | delete (key : MetaKey)
  deriving DecidableEq

inductive SavedResult where
  | nodeSession (id : ValueId)
  | rootReservation (id : ValueId)
  | rootRecord (id : ValueId)
  | rootGrant (id : ValueId)
  | rootCommand (id : ValueId)
  | rootCommandAck (id : ValueId)
  | dfsInode (id : ValueId)
  | dfsInodeWithLease (inode lease : ValueId)
  | dfsWriteLease (id : ValueId)
  | dfsReplicationClaim (requestDigest : Digest) (claim : Option ValueId)
  | dfsReplicationTask (id : ValueId)
  | dfsRename (inode : ValueId) (replacedInode : Option ValueId)
  | empty
  deriving DecidableEq

/-- An outcome whose namespace wrappers are flattened, outermost first. -/
structure SavedOutcome where
  request : RequestKey
  operation : StoreOperation
  namespaceDigests : List Digest
  result : SavedResult
  deriving DecidableEq

/-- A replication claim whose chunk and configuration live in the pool. -/
structure SavedClaim where
  taskId : ReplicationTaskId
  operationId : OperationId
  workerNodeId : String
  workerNodeEpoch : ℕ
  workerSessionId : String
  expiresAtUnixMs : ℕ
  fence : ℕ
  chunk : ValueId
  sourceCopyId : CopyId
  placementRevision : ℕ
  replicaGroup : ReplicaGroup
  replication : ValueId
  deriving DecidableEq

inductive PooledValue where
  | entity (entity : MetaEntity)
  | claimedTask (task : ReplicationTask) (claim : ValueId)
  | claim (claim : SavedClaim)
  deriving DecidableEq

/-- An operation delta, before the log adds its identity and hash chain. -/
structure RecordDecision where
  schema : ℕ
  request : RequestKey
  operation : StoreOperation
  revisionBefore : ℕ
  revisionAfter : ℕ
  completedAtUnixMs : ℕ
  eventIndexStart : ℕ
  values : List PooledValue
  changes : List Change
  outcomes : List SavedOutcome
  replyOutcome : ℕ
  nodeEpochs : List (String × ℕ)
  deriving DecidableEq

/-- One physical record: a decision, possibly with the retention step that was
selected on top of it, or a retention step alone. -/
inductive Record where
  | decision (decision : RecordDecision) (history : Option Delta)
  | history (delta : Delta)
  deriving DecidableEq

/-- The canonical serialization as the modelled functions observe it: encoded
sizes, fingerprints, and the sizes of the vector elements whose allocation is
bounded.  Nothing is assumed about any of them; fingerprints may collide. -/
class Codec where
  entitySize : MetaEntity → ℕ
  valueSize : PooledValue → ℕ
  decisionSize : RecordDecision → ℕ
  entityFingerprint : MetaEntity → Digest
  claimFingerprint : ReplicationClaim → Digest
  sizePooledValue : ℕ
  sizeChange : ℕ
  sizeSavedOutcome : ℕ
  sizeNodeEpoch : ℕ

/-! ## The value pool -/

def PooledValue.references : PooledValue → List ValueId
  | .entity _ => []
  | .claimedTask _ id => [id]
  | .claim saved => [saved.chunk, saved.replication]

def restoreClaim (values : List PooledValue) (id : ValueId) : Result ReplicationClaim :=
  match values[id]? with
  | some (.claim saved) =>
    match values[saved.chunk]? with
    | some (.entity (.dfsChunk chunk)) =>
      match values[saved.replication]? with
      | some (.entity (.dfsReplicationConfig replication)) =>
        .ok {
          taskId := saved.taskId
          operationId := saved.operationId
          workerNodeId := saved.workerNodeId
          workerNodeEpoch := saved.workerNodeEpoch
          workerSessionId := saved.workerSessionId
          expiresAtUnixMs := saved.expiresAtUnixMs
          fence := saved.fence
          chunk := chunk
          sourceCopyId := saved.sourceCopyId
          placementRevision := saved.placementRevision
          replicaGroup := saved.replicaGroup
          replication := replication }
      | _ => .error (invalidContract
          "canonical claim config reference has wrong type/range")
    | _ => .error (invalidContract
        "canonical claim chunk reference has wrong type/range")
  | _ => .error (invalidContract
      "canonical claim reference has wrong type/range")

/-- Whether an entity is a replication task that carries its claim inline. -/
def carriesClaim : MetaEntity → Bool
  | .dfsReplicationTask task => task.claim.isSome
  | _ => false

def restoreEntity (values : List PooledValue) (id : ValueId) : Result MetaEntity :=
  match values[id]? with
  | some (.entity entity) =>
    if carriesClaim entity then
      .error (invalidContract "canonical task hides an inline claim")
    else
      .ok entity
  | some (.claimedTask task claim) =>
    if task.claim.isSome then
      .error (invalidContract "canonical task duplicates claim content")
    else do
      let claim ← restoreClaim values claim
      return .dfsReplicationTask { task with claim := some claim }
  | _ => .error (invalidContract
      "canonical entity reference has wrong type/range")

/-- The pool under construction.  `byKey` and `byClaim` list the positions
already taken by a key and fingerprint, oldest first. -/
structure Pool where
  values : List PooledValue
  byKey : List ((MetaKey × Digest) × ValueId)
  byClaim : List ((ReplicationTaskId × OperationId × Digest) × ValueId)
  bytes : ℕ
  limit : ℕ
  itemLimit : ℕ

def Pool.new (limit itemLimit : ℕ) : Pool := ⟨[], [], [], 0, limit, itemLimit⟩

/-- The first listed position whose restored value is the wanted one. -/
def findRestored {A : Type} [DecidableEq A] (restore : ValueId → Result A)
    (wanted : A) : List ValueId → Result (Option ValueId)
  | [] => .ok none
  | id :: ids => do
      let value ← restore id
      if value = wanted then
        return some id
      else
        findRestored restore wanted ids

/-- The positions listed under a key. -/
def positions {K : Type} [DecidableEq K] (entries : List (K × ValueId)) (key : K) : List ValueId :=
  (entries.filter fun entry => decide (entry.1 = key)).map Prod.snd

section PoolInsert

variable [codec : Codec]

def Pool.push (pool : Pool) (value : PooledValue) : Result (Pool × ValueId) := do
  ensure (decide (pool.bytes + codec.valueSize value ≤ pool.limit))
    (invalidContract "canonical pool exceeds byte limit")
  ensure (decide (pool.values.length < pool.itemLimit))
    (invalidContract "canonical pool exceeds item limit")
  ensure (decide (pool.values.length < 2 ^ 32)) (invalidContract "canonical reference overflow")
  return ({ pool with
    values := pool.values ++ [value]
    bytes := pool.bytes + codec.valueSize value }, pool.values.length)

/-- Reuses the position of an equal entity, or pushes the value that `build`
makes of it. -/
def Pool.insertWith (pool : Pool) (entity : MetaEntity)
    (build : Pool → Result (Pool × PooledValue)) : Result (Pool × ValueId) := do
  let key := (entityKey entity, codec.entityFingerprint entity)
  match ← findRestored (restoreEntity pool.values) entity
      (positions pool.byKey key) with
  | some id => return (pool, id)
  | none => do
      ensure (decide (codec.entitySize entity ≤ pool.limit))
        (invalidContract "canonical entity exceeds byte limit")
      let (pool, value) ← build pool
      let (pool, id) ← pool.push value
      return ({ pool with byKey := pool.byKey ++ [(key, id)] }, id)

/-- Inserts an entity that carries no claim. -/
def Pool.insertPlain (pool : Pool) (entity : MetaEntity) : Result (Pool × ValueId) :=
  pool.insertWith entity fun pool => .ok (pool, .entity entity)

def Pool.insertClaim (pool : Pool) (claim : ReplicationClaim) : Result (Pool × ValueId) := do
  let key := (claim.taskId, claim.operationId, codec.claimFingerprint claim)
  match ← findRestored (restoreClaim pool.values) claim
      (positions pool.byClaim key) with
  | some id => return (pool, id)
  | none => do
      let (pool, chunk) ← pool.insertPlain (.dfsChunk claim.chunk)
      let (pool, replication) ←
        pool.insertPlain (.dfsReplicationConfig claim.replication)
      let (pool, id) ← pool.push (.claim {
        taskId := claim.taskId
        operationId := claim.operationId
        workerNodeId := claim.workerNodeId
        workerNodeEpoch := claim.workerNodeEpoch
        workerSessionId := claim.workerSessionId
        expiresAtUnixMs := claim.expiresAtUnixMs
        fence := claim.fence
        chunk := chunk
        sourceCopyId := claim.sourceCopyId
        placementRevision := claim.placementRevision
        replicaGroup := claim.replicaGroup
        replication := replication })
      return ({ pool with byClaim := pool.byClaim ++ [(key, id)] }, id)

/-- Inserts an entity; the claim of a replication task is pooled on its own. -/
def Pool.insert (pool : Pool) (entity : MetaEntity) : Result (Pool × ValueId) :=
  match entity with
  | .dfsReplicationTask task =>
    match task.claim with
    | some claim => pool.insertWith entity fun pool => do
        let (pool, id) ← pool.insertClaim claim
        return (pool, .claimedTask { task with claim := none } id)
    | none => pool.insertPlain entity
  | _ => pool.insertPlain entity

end PoolInsert

/-! ## Saved outcomes -/

def SavedOutcome.references (saved : SavedOutcome) : List ValueId :=
  match saved.result with
  | .nodeSession id | .rootReservation id | .rootRecord id | .rootGrant id
  | .rootCommand id | .rootCommandAck id | .dfsInode id | .dfsWriteLease id
  | .dfsReplicationTask id => [id]
  | .dfsInodeWithLease inode lease => [inode, lease]
  | .dfsRename inode replacedInode => inode :: replacedInode.toList
  | .dfsReplicationClaim _ claim => claim.toList
  | .empty => []

/-- The wrappers of a result, outermost first, and what they enclose. -/
def flattenNamespace : OperationResult → List Digest × OperationResult
  | .dfsNamespace digest result =>
    let (digests, inner) := flattenNamespace result
    (digest :: digests, inner)
  | result => ([], result)

/-- Puts the wrappers back, innermost first. -/
def wrapNamespace (digests : List Digest) (result : OperationResult) : OperationResult :=
  digests.foldr OperationResult.dfsNamespace result

section SaveOutcome

variable [codec : Codec]

def Pool.saveResult (pool : Pool) : OperationResult → Result (Pool × SavedResult)
  | .dfsNamespace _ _ => .error (invalidContract "unflattened outcome")
  | .nodeSession value => do
      let (pool, id) ← pool.insert (.nodeSession value)
      return (pool, .nodeSession id)
  | .rootReservation value => do
      let (pool, id) ← pool.insert (.rootReservation value)
      return (pool, .rootReservation id)
  | .rootRecord value => do
      let (pool, id) ← pool.insert (.root value)
      return (pool, .rootRecord id)
  | .rootGrant value => do
      let (pool, id) ← pool.insert (.rootGrant value)
      return (pool, .rootGrant id)
  | .rootCommand value => do
      let (pool, id) ← pool.insert (.rootCommand value)
      return (pool, .rootCommand id)
  | .rootCommandAck value => do
      let (pool, id) ← pool.insert (.rootCommandAck value)
      return (pool, .rootCommandAck id)
  | .dfsInode value => do
      let (pool, id) ← pool.insert (.dfsInode value)
      return (pool, .dfsInode id)
  | .dfsInodeWithLease inode lease => do
      let (pool, inode) ← pool.insert (.dfsInode inode)
      let (pool, lease) ← pool.insert (.dfsWriteLease lease)
      return (pool, .dfsInodeWithLease inode lease)
  | .dfsWriteLease value => do
      let (pool, id) ← pool.insert (.dfsWriteLease value)
      return (pool, .dfsWriteLease id)
  | .dfsReplicationClaim requestDigest none =>
    .ok (pool, .dfsReplicationClaim requestDigest none)
  | .dfsReplicationClaim requestDigest (some claim) => do
      let (pool, id) ← pool.insertClaim claim
      return (pool, .dfsReplicationClaim requestDigest (some id))
  | .dfsReplicationTask value => do
      let (pool, id) ← pool.insert (.dfsReplicationTask value)
      return (pool, .dfsReplicationTask id)
  | .dfsRename ⟨inode, none⟩ => do
      let (pool, inode) ← pool.insert (.dfsInode inode)
      return (pool, .dfsRename inode none)
  | .dfsRename ⟨inode, some replaced⟩ => do
      let (pool, inode) ← pool.insert (.dfsInode inode)
      let (pool, replaced) ← pool.insert (.dfsInode replaced)
      return (pool, .dfsRename inode (some replaced))
  | .empty => .ok (pool, .empty)

def SavedOutcome.save (outcome : RequestOutcome) (pool : Pool) : Result (Pool × SavedOutcome) := do
  let (digests, inner) := flattenNamespace outcome.result
  ensure (decide (digests.length ≤ maxNesting))
    (invalidContract "canonical outcome nesting exceeds limit")
  let (pool, result) ← pool.saveResult inner
  return (pool, ⟨outcome.request, outcome.operation, digests, result⟩)

end SaveOutcome

/-- Restores a reference at the entity type its holder expects. -/
def restoreAs {A : Type} (values : List PooledValue) (id : ValueId)
    (project : MetaEntity → Option A) : Result A := do
  let entity ← restoreEntity values id
  okOr (project entity) (invalidContract "canonical outcome reference has wrong entity type")

def MetaEntity.nodeSession? : MetaEntity → Option NodeSession
  | .nodeSession value => some value
  | _ => none

def MetaEntity.rootReservation? : MetaEntity → Option RootReservationRecord
  | .rootReservation value => some value
  | _ => none

def MetaEntity.root? : MetaEntity → Option RootRecord
  | .root value => some value
  | _ => none

def MetaEntity.rootGrant? : MetaEntity → Option RootAccessGrant
  | .rootGrant value => some value
  | _ => none

def MetaEntity.rootCommand? : MetaEntity → Option RootCommandRecord
  | .rootCommand value => some value
  | _ => none

def MetaEntity.rootCommandAck? : MetaEntity → Option RootCommandAck
  | .rootCommandAck value => some value
  | _ => none

def MetaEntity.dfsInode? : MetaEntity → Option InodeRecord
  | .dfsInode value => some value
  | _ => none

def MetaEntity.dfsWriteLease? : MetaEntity → Option WriteLease
  | .dfsWriteLease value => some value
  | _ => none

def MetaEntity.dfsReplicationTask? : MetaEntity → Option ReplicationTask
  | .dfsReplicationTask value => some value
  | _ => none

def SavedResult.restore (values : List PooledValue) : SavedResult → Result OperationResult
  | .nodeSession id => do
      return .nodeSession (← restoreAs values id MetaEntity.nodeSession?)
  | .rootReservation id => do
      return .rootReservation (← restoreAs values id MetaEntity.rootReservation?)
  | .rootRecord id => do
      return .rootRecord (← restoreAs values id MetaEntity.root?)
  | .rootGrant id => do
      return .rootGrant (← restoreAs values id MetaEntity.rootGrant?)
  | .rootCommand id => do
      return .rootCommand (← restoreAs values id MetaEntity.rootCommand?)
  | .rootCommandAck id => do
      return .rootCommandAck (← restoreAs values id MetaEntity.rootCommandAck?)
  | .dfsInode id => do
      return .dfsInode (← restoreAs values id MetaEntity.dfsInode?)
  | .dfsInodeWithLease inode lease => do
      let inode ← restoreAs values inode MetaEntity.dfsInode?
      let lease ← restoreAs values lease MetaEntity.dfsWriteLease?
      return .dfsInodeWithLease inode lease
  | .dfsWriteLease id => do
      return .dfsWriteLease (← restoreAs values id MetaEntity.dfsWriteLease?)
  | .dfsReplicationTask id => do
      return .dfsReplicationTask (← restoreAs values id MetaEntity.dfsReplicationTask?)
  | .dfsRename inode none => do
      let inode ← restoreAs values inode MetaEntity.dfsInode?
      return .dfsRename ⟨inode, none⟩
  | .dfsRename inode (some replaced) => do
      let inode ← restoreAs values inode MetaEntity.dfsInode?
      let replaced ← restoreAs values replaced MetaEntity.dfsInode?
      return .dfsRename ⟨inode, some replaced⟩
  | .dfsReplicationClaim requestDigest none =>
    .ok (.dfsReplicationClaim requestDigest none)
  | .dfsReplicationClaim requestDigest (some id) => do
      let claim ← restoreClaim values id
      return .dfsReplicationClaim requestDigest (some claim)
  | .empty => .ok .empty

def SavedOutcome.restore (saved : SavedOutcome) (values : List PooledValue) :
    Result RequestOutcome := do
  let result ← saved.result.restore values
  ensure (decide (saved.namespaceDigests.length ≤ maxNesting))
    (invalidContract "canonical namespace digest depth exceeds limit")
  return ⟨saved.request, saved.operation, wrapNamespace saved.namespaceDigests result⟩

end AgentDx.Store
