import AgentDx.Store.History

/-!
# Published authority and its writer

`State` is one immutable published authority: the entities with their
modification revisions, retained outcomes and watch events, node epochs, and the
indexes derived from them.  Transactions and node registrations are applied to a
private copy.  A fallible step returns the new state, so a rejected one leaves
the published state as it was.
-/

namespace AgentDx.Store

open Dfs Std Word

/-- A position of the operation log and the hash of the record there. -/
structure LogTip where
  sequence : ℕ
  recordHash : Digest
  deriving DecidableEq

def LogTip.empty : LogTip := ⟨0, 0⟩

structure VersionedEntity where
  revision : ℕ
  entity : MetaEntity
  deriving DecidableEq

structure State where
  /-- Recovery anchor paired with this state; framed by the log. -/
  logTip : LogTip
  revision : ℕ
  entities : ExtTreeMap MetaKey VersionedEntity
  requests : ExtTreeMap RequestKey OwnedOutcome
  requestCompletion : ExtTreeMap RequestKey RequestCompletion
  compactedTo : ℕ
  eventsRemoved : ℕ
  eventCompletion : ExtTreeMap ℕ ℕ
  /-- Derived retention index; never serialized. -/
  history : Index
  historyIndexed : Bool
  /-- How many retained outcomes refer to each root command. -/
  commandHistory : ExtTreeMap String ℕ
  commandHistoryBytes : ℕ
  /-- Derived capacity of the full authority. -/
  authorityBytes : ℕ
  authorityIndexed : Bool
  events : List (Owned WatchEvent)
  nodeEpochs : ExtTreeMap String ℕ

/-- `State::default()`. -/
def State.default : State where
  logTip := .empty
  revision := 0
  entities := ∅
  requests := ∅
  requestCompletion := ∅
  compactedTo := 0
  eventsRemoved := 0
  eventCompletion := ∅
  history := .empty
  historyIndexed := false
  commandHistory := ∅
  commandHistoryBytes := 0
  authorityBytes := 0
  authorityIndexed := false
  events := []
  nodeEpochs := ∅

/-- The entity stored under a key. -/
def State.entity? (state : State) (key : MetaKey) : Option MetaEntity :=
  state.entities[key]?.map VersionedEntity.entity

/-- `StoreRevision::next`. -/
def nextRevision (revision : ℕ) : ℕ := saturatingAdd revision 1

/-! ## Conditions -/

section

variable (state : State) (now : ℕ) (namespaceId : NamespaceId)

def entityRootEpoch : MetaEntity → ℕ
  | .root root => root.rootEpoch
  | .rootReservation reservation => reservation.rootEpoch
  | .rootGrant grant => grant.rootEpoch
  | .rootCommand command => command.rootEpoch
  | .rootCommandAck ack => ack.rootEpoch
  | _ => 0

def resultRootEpoch : OperationResult → ℕ
  | .rootRecord root => root.rootEpoch
  | .rootReservation reservation => reservation.rootEpoch
  | .rootGrant grant => grant.rootEpoch
  | .rootCommand command => command.rootEpoch
  | .rootCommandAck ack => ack.rootEpoch
  | _ => 0

/-- The recorded allocation floor, or the largest epoch still visible in the
records when none was captured yet. -/
def State.rootEpochWatermark (state : State) : ℕ :=
  match state.entity? .rootEpochWatermark with
  | some (.rootEpochWatermark value) => value
  | _ =>
    ((state.entities.values.map fun versioned =>
        entityRootEpoch versioned.entity) ++ state.requests.values.map fun owned =>
        resultRootEpoch owned.outcome.result).foldl max 0

def currentSessionMatches (nodeId sessionId : String) : Bool :=
  match state.entity? (.currentNodeSession nodeId) with
  | some (.nodeSession session) =>
    decide (session.sessionId = sessionId) && session.isLiveAtUnixMs now
  | _ => false

def dfsDirectoryIsEmpty (parentInodeId : InodeId) : Bool :=
  !state.entities.values.any fun versioned =>
    match versioned.entity with
    | .dfsDentry dentry =>
      decide (dentry.key.namespaceId = namespaceId) &&
        decide (dentry.key.parentInodeId = parentInodeId)
    | _ => false

/-- The parent named by the first dentry, in key order, that targets the
inode. -/
def dfsParentOf (inodeId : InodeId) : Option InodeId :=
  state.entities.values.findSome? fun versioned =>
    match versioned.entity with
    | .dfsDentry dentry =>
      if dentry.key.namespaceId = namespaceId ∧ dentry.inodeId = inodeId then
        some dentry.key.parentInodeId
      else
        none
    | _ => none

/-- The upward walk of the descendant test.  It stops at the ancestor, at the
root, at an inode without a parent, or when an inode repeats; every new inode
but the first is the parent in some dentry, so the number of entities bounds
its length. -/
def dfsAncestorWalk (state : State) (namespaceId : NamespaceId)
    (ancestorInodeId : InodeId) : ℕ → List InodeId → InodeId → Bool
  | 0, _, _ => true
  | fuel + 1, seen, current =>
    if current ∈ seen then
      true
    else
      match dfsParentOf state namespaceId current with
      | none => false
      | some parent =>
        if parent = ancestorInodeId then
          true
        else if parent = "1" then
          false
        else
          dfsAncestorWalk state namespaceId ancestorInodeId fuel (current :: seen) parent

def dfsIsDescendantOrSame (ancestorInodeId childInodeId : InodeId) : Bool :=
  if ancestorInodeId = childInodeId then
    true
  else
    dfsAncestorWalk state namespaceId ancestorInodeId (state.entities.size + 2) [] childInodeId

/-- One condition against a state; the session conditions read the clock. -/
def conditionMatches : TxnCondition → Bool
  | .storeRevisionEquals revision => decide (state.revision = revision)
  | .rootEpochWatermarkEquals expected =>
    decide (state.rootEpochWatermark = expected)
  | .missing key => !state.entities.contains key
  | .revisionEquals key revision =>
    state.entities[key]?.any fun versioned =>
      decide (versioned.revision = revision)
  | .entityEquals entity =>
    decide (state.entity? (entityKey entity) = some entity)
  | .nodeSessionCurrent nodeId sessionId =>
    currentSessionMatches state now nodeId sessionId
  | .nodeSessionExpired nodeId sessionId =>
    !currentSessionMatches state now nodeId sessionId
  | .rootEpochEquals rootId rootEpoch =>
    match state.entity? (.root rootId) with
    | some (.root root) => decide (root.rootEpoch = rootEpoch)
    | _ => false
  | .rootCommandAcked commandId nodeId sessionId =>
    match state.entity? (.rootCommandAck commandId nodeId sessionId) with
    | some (.rootCommandAck ack) => ack.success
    | _ => false
  | .rootCommandMatches commandId homeNodeId homeSessionId rootId rootEpoch
      oldAccessGeneration commandType =>
      match state.entity? (.rootCommand commandId) with
      | some (.rootCommand command) =>
        decide (command.homeNodeId = homeNodeId ∧
          command.homeSessionId = homeSessionId ∧ command.rootId = rootId ∧
          command.rootEpoch = rootEpoch ∧ command.oldAccessGeneration = oldAccessGeneration ∧
          command.commandType = commandType)
      | _ => false
  | .rootCommandAckedExact commandId nodeId sessionId rootId rootEpoch
      accessGeneration commandType =>
      let acked :=
        match state.entity? (.rootCommandAck commandId nodeId sessionId) with
        | some (.rootCommandAck ack) =>
          ack.success && decide (ack.rootId = rootId ∧ ack.rootEpoch = rootEpoch ∧
            ack.accessGeneration = accessGeneration)
        | _ => false
      let commandMatches :=
        match state.entity? (.rootCommand commandId) with
        | some (.rootCommand command) =>
          decide (command.homeNodeId = nodeId ∧
            command.homeSessionId = sessionId ∧ command.rootId = rootId ∧
            command.rootEpoch = rootEpoch ∧ command.oldAccessGeneration = accessGeneration ∧
            command.commandType = commandType)
        | _ => false
      acked && commandMatches
  | .requestAbsent key => !state.requests.contains key
  | .dfsDirectoryEmpty namespaceId parentInodeId =>
    dfsDirectoryIsEmpty state namespaceId parentInodeId
  | .dfsNotDescendant namespaceId ancestorInodeId childInodeId =>
    !dfsIsDescendantOrSame state namespaceId ancestorInodeId childInodeId

/-- Every condition holds; `clock` gives the reading of each evaluation. -/
def conditionsMatch (clock : ℕ → ℕ) (conditions : List TxnCondition) : Bool :=
  conditions.zipIdx.all fun item => conditionMatches state (clock item.2) item.1

end

lemma conditionMatches_of_conditionsMatch (hmatch : conditionsMatch state clock conditions = true)
    (hmem : condition ∈ conditions) :
    ∃ position, conditionMatches state (clock position) condition = true := by
  obtain ⟨position, hpos, rfl⟩ := List.mem_iff_getElem.mp hmem
  refine ⟨position, ?_⟩
  have hall := List.all_eq_true.mp hmatch (conditions[position], position)
  apply hall
  rw [List.mem_zipIdx_iff_getElem?]
  simp [hpos]

end AgentDx.Store
