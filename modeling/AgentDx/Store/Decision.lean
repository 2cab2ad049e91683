import AgentDx.Store.Record

/-!
# Deciding, recording and replaying

The forward path applies a transaction or a registration to a private copy of
the published state and captures the decision in a record.  The replay path
rebuilds the next state from the record alone.  The two are written
independently of each other, and so they are here.
-/

namespace AgentDx.Store

open Dfs Std Word

/-! ## Capturing a decision -/

/-- What the live state machine decided about one operation. -/
structure DecisionInput where
  request : RequestKey
  operation : StoreOperation
  revisionBefore : ℕ
  revisionAfter : ℕ
  completedAtUnixMs : ℕ
  events : List WatchEvent
  outcomes : List RequestOutcome
  reply : RequestOutcome
  nodeEpochs : List (String × ℕ)
  deriving DecidableEq

/-- The facts a record stands for; the same shape as what was captured. -/
abbrev DecidedFacts := DecisionInput

def matchesKey (key : MetaKey) (entity : MetaEntity) : Bool :=
  decide (key = entityKey entity) || match key, entity with
    | .currentNodeSession nodeId, .nodeSession session =>
      decide (nodeId = session.nodeId)
    | _, _ => false

/-- The capacity of a vector that grows by doubling. -/
def vectorCapacity (count : ℕ) : ℕ :=
  if count ≤ 1 then count else 2 ^ (Nat.log2 (count - 1) + 1)

section Capture

variable [codec : Codec]

section

variable (record : RecordDecision) (values : List PooledValue)

/-- The four vectors of a record share one item and one byte budget. -/
def RecordDecision.withinBudget : Bool :=
  decide (vectorCapacity record.values.length + vectorCapacity record.changes.length +
      vectorCapacity record.outcomes.length +
      vectorCapacity record.nodeEpochs.length ≤ recordItems ∧
    vectorCapacity record.values.length * codec.sizePooledValue +
      vectorCapacity record.changes.length * codec.sizeChange +
      vectorCapacity record.outcomes.length * codec.sizeSavedOutcome +
      vectorCapacity record.nodeEpochs.length * codec.sizeNodeEpoch ≤
    maxItems * (codec.sizePooledValue + codec.sizeChange +
      codec.sizeSavedOutcome + codec.sizeNodeEpoch))

/-- One pooled value refers only to earlier ones and can be restored. -/
def checkPooled (item : PooledValue × ℕ) : Result Unit := do
  ensure (item.1.references.all fun id => decide (id < item.2))
    (invalidContract "canonical value graph has a forward/cyclic reference")
  ensure (decide (item.2 < 2 ^ 32)) (invalidContract "canonical value index overflow")
  match item.1 with
  | .claim _ => do
      let _ ← restoreClaim values item.2
  | _ => do
      let _ ← restoreEntity values item.2

/-- Node names are distinct and nonempty, and no epoch is zero. -/
def checkEpochs : List (String × ℕ) → Bool
  | [] => true
  | (node, epoch) :: epochs =>
    !node.isEmpty && decide (epoch ≠ 0) && decide (node ∉ epochs.map Prod.fst) && checkEpochs epochs

def Change.reference : Change → Option ValueId
  | .put _ value => some value
  | .delete _ => none

/-- Every reference of a record, in the order they are marked. -/
def RecordDecision.references (record : RecordDecision) : List ValueId :=
  record.changes.filterMap Change.reference ++ record.outcomes.flatMap SavedOutcome.references ++
    record.values.flatMap PooledValue.references

/-- No two claims of a pool are equal, and no two positions restore to the same
entity. -/
def checkDistinct (values : List PooledValue) :
    List (PooledValue × ℕ) → List SavedClaim → List MetaEntity → Result Unit
  | [], _, _ => .ok ()
  | (.claim saved, _) :: items, claims, entities => do
      ensure (decide (saved ∉ claims)) (invalidContract "canonical pool duplicates claim content")
      checkDistinct values items (saved :: claims) entities
  | (_, index) :: items, claims, entities => do
      let entity ← restoreEntity values index
      ensure (decide (entity ∉ entities))
        (invalidContract "canonical pool duplicates entity content")
      checkDistinct values items claims (entity :: entities)

def RecordDecision.validate : Result Unit := do
  ensure record.withinBudget (invalidContract "canonical combined item budget exceeded")
  ensure (decide (record.schema = 1) && record.request.isValid &&
      decide (checkedAdd record.revisionBefore 1 = some record.revisionAfter) &&
      decide (record.replyOutcome < record.outcomes.length))
    (invalidContract "invalid canonical schema/identity/revision/length")
  record.values.zipIdx.forM (checkPooled record.values)
  ensure (checkEpochs record.nodeEpochs) (invalidContract "invalid canonical epoch changes")
  record.changes.forM fun
    | .put key value => do
        let entity ← restoreEntity record.values value
        ensure (matchesKey key entity)
          (invalidContract "canonical put reference key/value mismatch")
    | .delete _ => .ok ()
  ensure (record.outcomes.any fun outcome =>
      decide (outcome.request = record.request) && decide (outcome.operation = record.operation))
    (invalidContract "canonical decision lacks matching operation outcome")
  record.outcomes.forM fun outcome => do
    ensure outcome.request.isValid (invalidContract "invalid canonical outcome identity")
    let _ ← outcome.restore record.values
  ensure (record.references.all fun id => decide (id < record.values.length))
    (invalidContract "canonical reference out of range")
  ensure ((List.range record.values.length).all fun id =>
      decide (id ∈ record.references))
    (invalidContract "canonical value pool contains an unreferenced entity")
  checkDistinct record.values record.values.zipIdx [] []
  ensure (!record.changes.isEmpty || decide (record.eventIndexStart = 0))
    (invalidContract "canonical empty changes have nonzero event index")
  ensure (decide (record.eventIndexStart + (record.changes.length - 1) < 2 ^ 32))
    (invalidContract "canonical event index overflow")

/-- Pools the changed value of one event. -/
def captureChange (event : WatchEvent) (pool : Pool) : Result (Pool × Change) :=
  match event.change with
  | .put entity => do
      ensure (matchesKey event.key entity) (invalidContract "canonical put key/value mismatch")
      let (pool, id) ← pool.insert entity
      return (pool, .put event.key id)
  | .delete => .ok (pool, .delete event.key)

/-- Pools the changed values of the events, which must be consecutive. -/
def captureEvents (revisionAfter start : ℕ) :
    ℕ → List WatchEvent → Pool → Result (Pool × List Change)
  | _, [], pool => .ok (pool, [])
  | offset, event :: events, pool => do
      ensure (decide (event.revision = revisionAfter ∧ start + offset < 2 ^ 32 ∧
          start + offset = event.eventIndex))
        (invalidContract "canonical event revision/index mismatch")
      let (pool, change) ← captureChange event pool
      let (pool, changes) ←
        captureEvents revisionAfter start (offset + 1) events pool
      return (pool, change :: changes)

def captureOutcomes : List RequestOutcome → Pool → Result (Pool × List SavedOutcome)
  | [], pool => .ok (pool, [])
  | outcome :: outcomes, pool => do
      let (pool, saved) ← SavedOutcome.save outcome pool
      let (pool, rest) ← captureOutcomes outcomes pool
      return (pool, saved :: rest)

/-- Captures a decision.  Its vectors are charged while they grow; the charge
of the finished record, checked by `validate`, is the largest of these. -/
def RecordDecision.new (input : DecisionInput) (byteLimit : ℕ) : Result RecordDecision := do
  let start := (input.events.head?.map WatchEvent.eventIndex).getD 0
  let (pool, changes) ← captureEvents input.revisionAfter start 0 input.events
    (Pool.new byteLimit recordItems)
  let replyOutcome := input.outcomes.idxOf input.reply
  ensure (decide (replyOutcome < input.outcomes.length ∧ replyOutcome < 2 ^ 32))
    (invalidContract "canonical reply must reference an original saved outcome")
  let (pool, saved) ← captureOutcomes input.outcomes pool
  let record : RecordDecision := {
    schema := 1
    request := input.request
    operation := input.operation
    revisionBefore := input.revisionBefore
    revisionAfter := input.revisionAfter
    completedAtUnixMs := input.completedAtUnixMs
    eventIndexStart := start
    values := pool.values
    changes := changes
    outcomes := saved
    replyOutcome := replyOutcome
    nodeEpochs := input.nodeEpochs }
  record.validate
  ensure (decide (codec.decisionSize record ≤ byteLimit))
    (invalidContract "canonical decision exceeds byte limit")
  return record

/-- The key and change of a pooled change. -/
def Change.restore : Change → Result (MetaKey × WatchChange)
  | .put key value => do
      let entity ← restoreEntity values value
      return (key, .put entity)
  | .delete key => .ok (key, .delete)

/-- The watch event a change stands for. -/
def RecordDecision.restoreChange
    (item : Change × ℕ) : Result WatchEvent := do
  let (key, change) ← item.1.restore record.values
  ensure (decide (record.eventIndexStart + item.2 < 2 ^ 32))
    (invalidContract "event index overflow")
  return ⟨record.revisionAfter, record.eventIndexStart + item.2, key, change⟩

/-- Derives the events and original outcomes of a record. -/
def RecordDecision.facts : Result DecidedFacts := do
  record.validate
  let events ← record.changes.zipIdx.mapM record.restoreChange
  let outcomes ← record.outcomes.mapM fun outcome =>
    outcome.restore record.values
  let reply ← okOr outcomes[record.replyOutcome]?
    (invalidContract "canonical reply reference out of range")
  return {
    request := record.request
    operation := record.operation
    revisionBefore := record.revisionBefore
    revisionAfter := record.revisionAfter
    completedAtUnixMs := record.completedAtUnixMs
    events := events
    outcomes := outcomes
    reply := reply
    nodeEpochs := record.nodeEpochs }

def Record.validate : Record → Result Unit
  | .decision decided none => decided.validate
  | .decision decided (some delta) => do
      decided.validate
      delta.validate
      ensure (decide (delta.revision = decided.revisionAfter))
        (invalidContract "associated retention revision mismatch")
  | .history delta => delta.validate

end

end Capture

/-! ## The forward path -/

section Forward

variable [Footprint] [Codec]

section

variable (state : State) (completedAt revision : ℕ)

/-- Marks the requests of a decision as completed. -/
def State.completeRequests (keys : List RequestKey) : State :=
  { state with requestCompletion :=
      keys.foldl (fun completion key =>
        completion.insert key ⟨completedAt, revision⟩) state.requestCompletion }

/-- Marks the events of a revision as completed, if it has any. -/
def State.completeEvents (events : List WatchEvent) : State :=
  { state with eventCompletion :=
      if events.isEmpty then state.eventCompletion
      else state.eventCompletion.insert revision completedAt }

/-- Clones of the events added since `count` events were retained. -/
def State.eventsSince (count : ℕ) : List WatchEvent := (state.events.drop count).map Owned.value

def State.prepareTxnRecord (clock : ℕ → ℕ) (txn : MetaTxn)
    (completedAt byteLimit : ℕ) : Result (State × TxnOutcome × Option RecordDecision) := do
  let prepared ← state.ensureHistoryIndex
  let (prepared, outcome) ← prepared.applyTxn clock txn
  match outcome with
  | .committed revision reply => do
      let events := prepared.eventsSince state.events.length
      let record ← RecordDecision.new {
        request := txn.request
        operation := txn.operation
        revisionBefore := state.revision
        revisionAfter := revision
        completedAtUnixMs := completedAt
        events := events
        outcomes := txn.outcomes
        reply := reply
        nodeEpochs := [] } byteLimit
      let keys := txn.outcomes.map RequestOutcome.request
      let prepared := (prepared.completeRequests completedAt revision
        keys).completeEvents completedAt revision events
      let prepared ← prepared.accountHistoryChanges state keys state.events.length completedAt
      return (prepared, outcome, some record)
  | .conditionFailed _ _ => return (prepared, outcome, none)

/-- The epoch change of a registration, if it made one. -/
def decidedEpochs (state prepared : State) (nodeId : String) : Result (List (String × ℕ)) :=
  if prepared.nodeEpochs[nodeId]? = state.nodeEpochs[nodeId]? then
    .ok []
  else do
    let epoch ← okOr prepared.nodeEpochs[nodeId]? (invalidContract "missing decided node epoch")
    return [(nodeId, epoch)]

def State.prepareNodeRecord (now : ℕ) (request : RequestKey)
    (lease : NodeSessionLease) (completedAt byteLimit : ℕ) :
    Result (State × TxnOutcome × Option RecordDecision) := do
  let prepared ← state.ensureHistoryIndex
  let (prepared, outcome) ← prepared.registerNodeSession now request lease
  match outcome with
  | .committed revision reply => do
      let events := prepared.eventsSince state.events.length
      let epochs ← decidedEpochs state prepared lease.nodeId
      let record ← RecordDecision.new {
        request := request
        operation := .registerNode
        revisionBefore := state.revision
        revisionAfter := revision
        completedAtUnixMs := completedAt
        events := events
        outcomes := [reply]
        reply := reply
        nodeEpochs := epochs } byteLimit
      let prepared := (prepared.completeRequests completedAt revision
        [reply.request]).completeEvents completedAt revision events
      let prepared ← prepared.accountHistoryChanges state [reply.request]
        state.events.length completedAt
      return (prepared, outcome, some record)
  | .conditionFailed _ _ => return (prepared, outcome, none)

end

end Forward

/-! ## The replay path -/

section Replay

variable [Footprint]

section

variable (state : State) (event : WatchEvent) (facts : DecidedFacts)

/-- Applies the change of one decided event. -/
def State.replayChange : Result State :=
  match event.change with
  | .put entity => state.putAuthority event.key ⟨event.revision, entity⟩
  | .delete => state.deleteAuthority (.exact event.key)

/-- Applies one decided event. -/
def State.replayEvent : Result State := do
  let state ← state.replayChange event
  return { state with events := state.events ++ [.exact event] }

/-- Retains one decided outcome. -/
def State.replayOutcome (completedAt revision : ℕ) (state : State)
    (outcome : RequestOutcome) : State :=
  { state with
    requestCompletion := state.requestCompletion.insert outcome.request ⟨completedAt, revision⟩
    requests := state.requests.insert outcome.request (.exact outcome) }

/-- The first event of a record is numbered zero, or continues the numbering of
node registrations. -/
def State.eventBaseValid : Result Bool :=
  match facts.events with
  | [] => .ok true
  | first :: _ =>
    if first.eventIndex = 0 then
      .ok true
    else if facts.operation = .registerNode then do
      let index ← state.nextNodeEventIndex
      return decide (first.eventIndex = index)
    else
      .ok false

/-- Applies decided facts to the state they were decided on. -/
def State.replayFacts : Result State := do
  ensure (decide (facts.revisionBefore = state.revision))
    (invalidContract "canonical replay revision does not follow current state")
  let valid ← state.eventBaseValid facts
  ensure valid (invalidContract "canonical replay event base mismatch")
  ensure (!state.requests.contains facts.request)
    (invalidContract "canonical replay replaces a retained request")
  ensure (facts.nodeEpochs.all fun item =>
      state.nodeEpochs[item.1]?.all fun old => decide (old ≤ item.2))
    (invalidContract "canonical replay node epoch regresses")
  let prepared ← state.ensureHistoryIndex
  let prepared := prepared.completeEvents facts.completedAtUnixMs facts.revisionAfter facts.events
  let prepared ← facts.events.foldlM State.replayEvent prepared
  let prepared := facts.outcomes.foldl
    (State.replayOutcome facts.completedAtUnixMs facts.revisionAfter) prepared
  let prepared ← facts.nodeEpochs.foldlM (fun state item => state.setEpoch item.1 item.2) prepared
  State.accountHistoryChanges { prepared with revision := facts.revisionAfter }
    state (facts.outcomes.map RequestOutcome.request) state.events.length
    facts.completedAtUnixMs

end

variable [Codec]

def State.replayDecision (state : State) (record : RecordDecision) : Result State := do
  let facts ← record.facts
  state.replayFacts facts

def State.replayRecord (state : State) (record : Record) : Result State := do
  record.validate
  match record with
  | .decision decided none => state.replayDecision decided
  | .decision decided (some delta) => do
      let next ← state.replayDecision decided
      next.applyHistory delta
  | .history delta => state.applyHistory delta

end Replay

end AgentDx.Store
