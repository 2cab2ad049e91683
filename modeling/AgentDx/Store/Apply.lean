import AgentDx.Store.State

/-!
# Applying transactions, registrations and retention steps

These are the writer's state changes.  Entity and epoch changes keep the
capacity of the full authority up to date; the retention index and the command
reference counts are adjusted once a decision is complete, from the outcomes and
events it added.
-/

namespace AgentDx.Store

open Dfs Std Word

/-! ## Authority capacity -/

section Authority

variable [Footprint]

section

variable (state : State) (key : Owned MetaKey) (node : String)

/-- `Meta` authority bytes from scratch: all entities, then all node epochs. -/
def State.authorityTotal : Result ℕ := do
  let bytes ← state.entities.toList.foldlM (fun bytes entry => do
      let held ← authorityCharge (.exact entry.1) entry.2.entity
      okOr (checkedAdd bytes held) (invalidContract "Meta authority byte charge overflow")) 0
  state.nodeEpochs.toList.foldlM (fun bytes entry => do
      let held ← epochCharge entry.1
      okOr (checkedAdd bytes held) (invalidContract "Meta epoch byte charge overflow")) bytes

def State.ensureAuthorityIndex : Result State :=
  if state.authorityIndexed then
    .ok state
  else do
    let bytes ← state.authorityTotal
    return { state with authorityBytes := bytes, authorityIndexed := true }

/-- What the entity under `key` is charged, if there is one. -/
def State.heldCharge : Result ℕ :=
  match state.entities[key.value]? with
  | some old => authorityCharge key old.entity
  | none => .ok 0

/-- The authority bytes after putting an entity, once they are indexed. -/
def State.putBytes (key : MetaKey) (entity : MetaEntity) : Result ℕ :=
  if state.authorityIndexed then do
    let old ← state.heldCharge (.exact key)
    let new ← authorityCharge (.exact key) entity
    okOr (checkedReplace state.authorityBytes old new)
      (invalidContract "Meta authority replacement charge overflow")
  else
    .ok state.authorityBytes

/-- The authority bytes after a deletion.  The charge taken off is computed
from the caller's key, spare capacity included, although the stored key is a
clone. -/
def State.deleteBytes : Result ℕ :=
  if state.authorityIndexed then do
    let old ← state.heldCharge key
    okOr (checkedSub state.authorityBytes old)
      (invalidContract "Meta authority deletion charge underflow")
  else
    .ok state.authorityBytes

/-- The authority bytes after setting the epoch of a node. -/
def State.epochBytes : Result ℕ :=
  if state.authorityIndexed && !state.nodeEpochs.contains node then do
    let held ← epochCharge node
    okOr (checkedAdd state.authorityBytes held)
      (invalidContract "Meta epoch replacement charge overflow")
  else
    .ok state.authorityBytes

def State.putAuthority (key : MetaKey)
    (value : VersionedEntity) : Result State := do
  let bytes ← state.putBytes key value.entity
  return { state with
    entities := state.entities.insert key value, authorityBytes := bytes }

def State.deleteAuthority : Result State := do
  let bytes ← state.deleteBytes key
  return { state with
    entities := state.entities.erase key.value, authorityBytes := bytes }

def State.setEpoch (epoch : ℕ) : Result State := do
  let bytes ← state.epochBytes node
  return { state with
    nodeEpochs := state.nodeEpochs.insert node epoch, authorityBytes := bytes }

end

end Authority

/-! ## Command references -/

def commandResultId : OperationResult → Option String
  | .dfsNamespace _ result => commandResultId result
  | .rootCommand command => some command.commandId
  | .rootCommandAck ack => some ack.commandId
  | _ => none

/-- Adds or drops one retained reference to a root command. -/
def accountCommandResult (index : ExtTreeMap String ℕ) (bytes : ℕ)
    (result : OperationResult) (add : Bool) : Result (ExtTreeMap String ℕ × ℕ) :=
  match commandResultId result with
  | none => .ok (index, bytes)
  | some id => do
      let count := index[id]?.getD 0
      let held ← okOr (checkedAdd id.utf8ByteSize 256)
        (invalidContract "command outcome index charge overflow")
      if add then do
        let next ← okOr (checkedAdd count 1) (invalidContract "command outcome reference overflow")
        let bytes ← (if count = 0 then
            okOr (checkedAdd bytes held) (invalidContract "command outcome index charge overflow")
          else
            .ok bytes)
        return (index.insert id next, bytes)
      else if count = 1 then do
        let bytes ← okOr (checkedSub bytes held)
          (invalidContract "command outcome index charge underflow")
        return (index.erase id, bytes)
      else if 1 < count then
        return (index.insert id (count - 1), bytes)
      else
        .error (invalidContract "missing command outcome reference")

/-- The indexes kept over retained history: capacity and command references. -/
structure Accounting where
  index : Index
  commands : ExtTreeMap String ℕ
  commandBytes : ℕ

def Accounting.empty : Accounting := ⟨.empty, ∅, 0⟩

def Accounting.command (accounting : Accounting) (result : OperationResult)
    (add : Bool) : Result Accounting := do
  let (commands, bytes) ← accountCommandResult accounting.commands
    accounting.commandBytes result add
  return { accounting with commands := commands, commandBytes := bytes }

def Accounting.request [Footprint] (accounting : Accounting) (key : RequestKey)
    (completion : RequestCompletion) (owned : OwnedOutcome) : Result Accounting := do
  let held ← requestCharge owned
  let index ← accounting.index.trackRequest key completion held
  return { accounting with index := index }

def State.accounting (state : State) : Accounting :=
  ⟨state.history, state.commandHistory, state.commandHistoryBytes⟩

def State.withAccounting (state : State) (accounting : Accounting) : State :=
  { state with
    history := accounting.index
    commandHistory := accounting.commands
    commandHistoryBytes := accounting.commandBytes }

/-! ## The retention index -/

section Retention

variable [Footprint]

section

variable (source : State) (state : State) (accounting : Accounting)

/-- One retained outcome of the index rebuild. -/
def State.rebuildRequest
    (entry : RequestKey × OwnedOutcome) : Result Accounting := do
  let completion ← okOr source.requestCompletion[entry.1]?
    (invalidContract "history request completion missing")
  ensure (decide (entry.1 = entry.2.outcome.request ∧
      completion.revision ≠ 0 ∧ completion.revision ≤ source.revision))
    (invalidContract "history original request identity/revision invalid")
  let accounting ← accounting.command entry.2.outcome.result true
  accounting.request entry.1 completion entry.2

/-- One revision group of the index rebuild. -/
def State.rebuildEvents (acc : ℕ × Index) (group : List (Owned WatchEvent)) : Result (ℕ × Index) :=
  match group with
  | [] => .ok acc
  | event :: _ => do
      let (previous, index) := acc
      let revision := event.value.revision
      ensure (decide (previous < revision ∧ revision ≤ source.revision))
        (invalidContract "history event revision order invalid")
      let (count, bytes) ← eventsCharge group
      let index ← index.trackEvents revision source.eventCompletion[revision]? count bytes
      return (revision, index)

/-- Maximal runs of events of one revision. -/
def eventGroups (events : List (Owned WatchEvent)) : List (List (Owned WatchEvent)) :=
  events.splitBy fun left right =>
    decide (left.value.revision = right.value.revision)

/-- Recomputes every derived index from the retained records. -/
def State.rebuildHistoryIndex : Result State := do
  let state ← state.ensureAuthorityIndex
  ensure (decide (state.requestCompletion.size = state.requests.size))
    (invalidContract "history outcome completion coverage mismatch")
  let accounting ←
    state.requests.toList.foldlM state.rebuildRequest .empty
  let (_, index) ← (eventGroups state.events).foldlM state.rebuildEvents
    (state.compactedTo, accounting.index)
  return { state.withAccounting { accounting with index := index } with
    historyIndexed := true }

def State.ensureHistoryIndex : Result State :=
  if state.historyIndexed then .ok state else state.rebuildHistoryIndex

/-- Drops the command reference of the outcome a key retained before. -/
def Accounting.dropPrevious (previous : State) (key : RequestKey) : Result Accounting :=
  match previous.requests[key]? with
  | some old => accounting.command old.outcome.result false
  | none => .ok accounting

/-- Accounts one newly recorded outcome: the reference of the outcome it
replaces is dropped, its own is added. -/
def State.accountRequest (state previous : State) (accounting : Accounting)
    (key : RequestKey) : Result Accounting := do
  let owned ← okOr state.requests[key]? (invalidContract "history new outcome missing")
  let completion ← okOr state.requestCompletion[key]?
    (invalidContract "history new completion missing")
  let accounting ← accounting.dropPrevious previous key
  let accounting ← accounting.command owned.outcome.result true
  accounting.request key completion owned

/-- Accounts the events added by a decision, if there are any. -/
def State.accountEvents (index : Index)
    (eventsFrom completedAt : ℕ) : Result Index := do
  let (count, bytes) ← eventsCharge (state.events.drop eventsFrom)
  if 0 < count then
    index.trackEvents state.revision (some completedAt) count bytes
  else
    return index

/-- Extends the retention index by one decision. -/
def State.accountHistoryChanges (state previous : State)
    (keys : List RequestKey) (eventsFrom completedAt : ℕ) : Result State := do
  let accounting ← keys.foldlM (state.accountRequest previous) state.accounting
  ensure (decide (eventsFrom ≤ state.events.length))
    (invalidContract "history new event range is invalid")
  let index ← state.accountEvents accounting.index eventsFrom completedAt
  return { state.withAccounting { accounting with index := index } with
    historyIndexed := true }

/-- The number of leading events a retention step removes, and the revision of
the last of them. -/
def countRemoved (compactedFrom compactedTo : ℕ) :
    List (Owned WatchEvent) → (removed last : ℕ) → Result (ℕ × ℕ)
  | [], removed, last => .ok (removed, last)
  | event :: events, removed, last =>
    if event.value.revision ≤ compactedFrom then
      .error (invalidContract "retained event is below compaction watermark")
    else if compactedTo < event.value.revision then
      .ok (removed, last)
    else do
      let removed ← okOr (checkedAdd removed 1)
        (invalidContract "history event removal count overflow")
      countRemoved compactedFrom compactedTo events removed event.value.revision

/-- Retires one outcome and its command reference. -/
def State.retireRequest (item : RemovedRequest) : Result State := do
  let owned ← okOr state.requests[item.key]? (invalidContract "retiring command outcome missing")
  let accounting ← state.accounting.command owned.outcome.result false
  return { state.withAccounting accounting with
    requests := state.requests.erase item.key
    requestCompletion := state.requestCompletion.erase item.key }

/-- Applies a retention step to the published state. -/
def State.applyHistory (delta : Delta) : Result State := do
  delta.validate
  ensure (decide (delta.revision = state.revision ∧ delta.compactedFrom = state.compactedTo))
    (invalidContract "history cleanup does not follow published revision/watermark")
  ensure (delta.requests.all fun item =>
      state.requests.contains item.key &&
        decide (state.requestCompletion[item.key]? = some item.completion))
    (invalidContract "history cleanup request generation mismatch")
  let (removed, last) ← countRemoved state.compactedTo delta.compactedTo
    state.events 0 state.compactedTo
  ensure (decide (last = delta.compactedTo))
    (invalidContract "history cleanup watermark is not a retained revision boundary")
  let eventsRemoved ← okOr (checkedAdd state.eventsRemoved removed)
    (invalidContract "history event ordinal overflow")
  let next ← state.ensureHistoryIndex
  let history ← next.history.apply delta state.revision state.compactedTo
  let next ← delta.requests.foldlM State.retireRequest
    { next with history := history }
  return { next with
    events := next.events.drop removed
    eventCompletion := next.eventCompletion.filter
      fun revision _ => decide (delta.compactedTo < revision)
    eventsRemoved := eventsRemoved
    compactedTo := delta.compactedTo }

/-- Selects and applies the next retention step.  A state that still lacks the
recorded root epoch floor, while some record mentions an epoch, is left alone
until maintenance has captured the floor. -/
def State.prepareHistory (now : ℕ) (limits : Limits)
    (isProtected : Finset RequestKey) : Result (Option (State × Delta)) :=
  if !state.entities.contains .rootEpochWatermark && decide (state.rootEpochWatermark ≠ 0) then
    .ok none
  else do
    let prepared ← state.ensureHistoryIndex
    match ← prepared.history.select prepared.revision prepared.compactedTo now
        limits isProtected with
    | none => return none
    | some delta => do
        let next ← prepared.applyHistory delta
        return some (next, delta)

end

end Retention

/-! ## Transactions -/

section Transactions

variable [Footprint]

/-- One mutation, with the position of the next event of the revision. -/
def State.applyMutation (revision : ℕ) (acc : State × ℕ)
    (mutation : TxnMutation) : Result (State × ℕ) := do
  let (state, eventIndex) := acc
  match mutation with
  | .put entity => do
      let key := entityKey entity.value
      let state ← state.putAuthority key ⟨revision, entity.value⟩
      let event : Owned WatchEvent := ⟨⟨revision, eventIndex, key, .put entity.value⟩, entity.spare⟩
      return ({ state with events := state.events ++ [event] }, eventIndex + 1)
  | .delete key => do
      let state ← state.deleteAuthority key
      let event : Owned WatchEvent := ⟨⟨revision, eventIndex, key.value, .delete⟩, key.spare⟩
      return ({ state with events := state.events ++ [event] }, eventIndex + 1)
  | .recordRequestOutcome owned =>
    return ({ state with
      requests := state.requests.insert owned.outcome.request owned }, eventIndex)

/-- Applies a validated transaction: a retained outcome for its request or a
failed condition changes nothing, otherwise all mutations happen at the next
revision and the reply is the first outcome recorded. -/
def State.applyValidated (state : State) (clock : ℕ → ℕ) (txn : MetaTxn) :
    Result (State × TxnOutcome) :=
  match state.requests[txn.request]? with
  | some existing =>
    .ok (state, .conditionFailed state.revision (some existing.outcome))
  | none =>
    if !conditionsMatch state clock txn.conditions then
      .ok (state, .conditionFailed state.revision none)
    else do
      let outcome ← okOr txn.outcomes.head? (invalidContract "missing request outcome")
      let revision := nextRevision state.revision
      let (state, _) ← txn.mutations.foldlM (State.applyMutation revision)
        ({ state with historyIndexed := false, revision := revision }, 0)
      return (state, .committed revision outcome)

def State.applyTxn (state : State) (clock : ℕ → ℕ) (txn : MetaTxn) :
    Result (State × TxnOutcome) := do
  txn.validate
  state.applyValidated clock txn

end Transactions

/-! ## Node registration -/

section Registration

/-- Registration events are numbered over the whole history. -/
def State.nextNodeEventIndex (state : State) : Result ℕ :=
  okOr ((checkedAdd state.eventsRemoved state.events.length).filter
      fun count => decide (count < 2 ^ 32))
    (invalidContract "node event index overflow")

/-- The epoch of the current live session of this very process, if any. -/
def State.liveLeaseEpoch (state : State) (lease : NodeSessionLease) (now : ℕ) : Option ℕ :=
  match state.entity? (.currentNodeSession lease.nodeId) with
  | some (.nodeSession session) =>
    if session.sessionId = lease.sessionId ∧ session.isLiveAtUnixMs now then
      some session.leaseEpoch
    else
      none
  | _ => none

variable [Footprint]

section

variable (state : State) (now : ℕ) (request : RequestKey) (lease : NodeSessionLease)

/-- A renewal of the live process keeps its epoch; any other registration
advances the epoch of the node. -/
def State.decideEpoch (now : ℕ) : Result (State × ℕ) :=
  match state.liveLeaseEpoch lease now with
  | some epoch => .ok (state, epoch)
  | none => do
      let next := saturatingAdd (state.nodeEpochs[lease.nodeId]?.getD 0) 1
      let state ← state.setEpoch lease.nodeId next
      return (state, next)

/-- One of the two entities a registration puts. -/
def State.putSession (revision : ℕ) (session : NodeSession) (state : State)
    (key : MetaKey) : Result State := do
  let state ← state.putAuthority key ⟨revision, .nodeSession session⟩
  let eventIndex ← state.nextNodeEventIndex
  return { state with events := state.events ++
    [.exact ⟨revision, eventIndex, key, .put (.nodeSession session)⟩] }

/-- Registers or renews a node session. -/
def State.registerValidated : Result (State × TxnOutcome) :=
  match state.requests[request]? with
  | some existing =>
    .ok (state, .conditionFailed state.revision (some existing.outcome))
  | none => do
      ensure request.isValid (invalidContract "request key must include caller_id and request_id")
      let eventIndex ← state.nextNodeEventIndex
      ensure (decide (eventIndex + 1 < 2 ^ 32)) (invalidContract "node event index overflow")
      ensure (match state.entity? (.nodeSession lease.nodeId lease.sessionId) with
          | some (.nodeSession session) => session.isLiveAtUnixMs now
          | _ => true)
        (invalidContract "expired node session cannot be renewed; start a new session_id")
      let (state, leaseEpoch) ← state.decideEpoch lease now
      let ttl := min (asMillis lease.leaseTtlNanos) (Word.size - 1)
      let session : NodeSession := {
        nodeId := lease.nodeId
        sessionId := lease.sessionId
        grpcAddr := lease.grpcAddr
        dataAddr := lease.dataAddr
        restAddr := lease.restAddr
        ownerfsEnabled := lease.ownerfsEnabled
        storageDevices := lease.storageDevices
        leaseEpoch := leaseEpoch
        expiresAtUnixMs := saturatingAdd now ttl }
      let outcome : RequestOutcome := ⟨request, .registerNode, .nodeSession session⟩
      let revision := nextRevision state.revision
      let state ← [MetaKey.nodeSession session.nodeId session.sessionId,
          .currentNodeSession session.nodeId].foldlM
        (State.putSession revision session)
        { state with historyIndexed := false, revision := revision }
      return ({ state with
        requests := state.requests.insert request (.exact outcome) }, .committed revision outcome)

def State.registerNodeSession : Result (State × TxnOutcome) := do
  ensure (!lease.nodeId.isEmpty && !lease.sessionId.isEmpty && decide (lease.leaseTtlNanos ≠ 0))
    (invalidContract "node_id, session_id and positive lease_ttl are required")
  state.registerValidated now request lease

end

end Registration

end AgentDx.Store
