import AgentDx.Lib.Word
import AgentDx.Store.Txn

/-!
# Retained history and its capacity index

The store keeps the outcomes of completed requests and the watch events of past
revisions until a retention pass removes them.  An index over both, never
persisted, carries what that pass needs: completion times, item counts and the
bytes each item holds.  A selected `Delta` names the removed requests and the
new compaction watermark; it takes effect only once it is durable.
-/

namespace AgentDx.Store

open Dfs Std Word

/-- Completion metadata decided together with an outcome. -/
structure RequestCompletion where
  completedAtUnixMs : ℕ
  revision : ℕ
  deriving DecidableEq

/-- In-memory sizes of Rust values: what a clone of a record owns on the heap
and the compiler's sizes of the record types.  Nothing is assumed about them. -/
class Footprint where
  entityHeap : MetaEntity → ℕ
  resultHeap : OperationResult → ℕ
  sizeString : ℕ
  sizeMetaKey : ℕ
  sizeVersionedEntity : ℕ
  sizeRequestKey : ℕ
  sizeRequestOutcome : ℕ
  sizeWatchEvent : ℕ

def maxCleanup : ℕ := 65536
def indexBaseBytes : ℕ := 64 * 1024
def requestEntryBytes : ℕ := 1024
def eventEntryBytes : ℕ := 64
def eventGroupBytes : ℕ := 512

section Charges

/-- Heap bytes of a cloned key: its strings and the bytes of a file name. -/
def keyHeap (key : MetaKey) : ℕ := (key.rank.2.1.map String.utf8ByteSize).sum + key.rank.2.2.length

def requestHeap (request : RequestKey) : ℕ :=
  request.callerId.utf8ByteSize + request.requestId.utf8ByteSize

/-- A charge is a 64-bit sum of capacities. -/
def charge (bytes : ℕ) : Result ℕ :=
  if bytes < Word.size then .ok bytes
  else .error (invalidContract "history owned byte overflow")

@[simp]
lemma charge_eq_ok : charge bytes = .ok value ↔ bytes < Word.size ∧ bytes = value := by
  unfold charge
  split <;> simp_all

variable [footprint : Footprint]

/-- The outcome itself, its map entries, and the four further copies of its
request key kept by the outcome, completion and order maps. -/
def requestCharge (owned : OwnedOutcome) : Result ℕ :=
  charge (footprint.sizeRequestOutcome + requestHeap owned.outcome.request +
    footprint.resultHeap owned.outcome.result + owned.spare + requestEntryBytes +
    4 * (footprint.sizeRequestKey + requestHeap owned.outcome.request + owned.keySpare))

def changeHeap : WatchChange → ℕ
  | .put entity => footprint.entityHeap entity
  | .delete => 0

def eventCharge (owned : Owned WatchEvent) : Result ℕ :=
  charge (footprint.sizeWatchEvent + keyHeap owned.value.key +
    changeHeap owned.value.change + owned.spare + eventEntryBytes)

/-- Full primary authority ownership of one entity under a key held by the
caller. -/
def authorityCharge (key : Owned MetaKey) (entity : MetaEntity) : Result ℕ :=
  charge (1024 + footprint.sizeMetaKey + footprint.sizeVersionedEntity +
    keyHeap key.value + key.spare + footprint.entityHeap entity)

def epochCharge (node : String) : Result ℕ :=
  charge (1024 + (footprint.sizeString + 8) + node.utf8ByteSize)

/-- Count and bytes of the events of one revision. -/
def eventsChargeFrom (count bytes : ℕ) : List (Owned WatchEvent) → Result (ℕ × ℕ)
  | [] => .ok (count, bytes)
  | event :: events => do
      let count ← okOr (checkedAdd count 1) (invalidContract "history group event count overflow")
      let held ← eventCharge event
      let bytes ← okOr (checkedAdd bytes held)
        (invalidContract "history group event bytes overflow")
      eventsChargeFrom count bytes events

def eventsCharge (events : List (Owned WatchEvent)) : Result (ℕ × ℕ) := do
  let (count, bytes) ← eventsChargeFrom 0 eventGroupBytes events
  return (count, if count = 0 then 0 else bytes)

end Charges

/-- Retention limits; durations are in nanoseconds. -/
structure Limits where
  requestCount : ℕ
  requestBytes : ℕ
  requestRetention : ℕ
  eventCount : ℕ
  eventBytes : ℕ
  eventRetention : ℕ
  cleanupItems : ℕ
  protectedRequests : ℕ
  deriving DecidableEq

/-- `Duration::as_millis`. -/
def asMillis (nanos : ℕ) : ℕ := nanos / 1000000

def Limits.validate (limits : Limits) : Result Limits := do
  ensure (decide (limits.requestCount ≠ 0 ∧ limits.requestBytes ≠ 0 ∧
      limits.eventCount ≠ 0 ∧ limits.eventBytes ≠ 0 ∧
      limits.requestRetention ≠ 0 ∧ limits.eventRetention ≠ 0 ∧
      asMillis limits.requestRetention < Word.size ∧ asMillis limits.eventRetention < Word.size ∧
      1 ≤ limits.cleanupItems ∧ limits.cleanupItems ≤ maxCleanup ∧ limits.protectedRequests ≠ 0))
    (invalidContract "invalid finite history retention limits")
  return limits

structure RemovedRequest where
  key : RequestKey
  completion : RequestCompletion
  deriving DecidableEq

/-- A selected retention step. -/
structure Delta where
  revision : ℕ
  selectedAtUnixMs : ℕ
  compactedFrom : ℕ
  compactedTo : ℕ
  requests : List RemovedRequest
  deriving DecidableEq

/-- Every removed request is well formed and follows the previous one in key
order. -/
def Delta.validateRequests (revision : ℕ) : Option RequestKey → List RemovedRequest → Result Unit
  | _, [] => .ok ()
  | previous, item :: items => do
      ensure (item.key.isValid && decide (item.completion.revision ≠ 0) &&
          decide (item.completion.revision ≤ revision) &&
          previous.all fun key => decide (compare key item.key = .lt))
        (invalidContract "invalid history cleanup identity/order")
      validateRequests revision (some item.key) items

def Delta.validate (delta : Delta) : Result Unit := do
  ensure (decide (delta.compactedFrom ≤ delta.compactedTo ∧ delta.compactedTo ≤ delta.revision ∧
      delta.requests.length ≤ maxCleanup ∧
      ¬ (delta.requests.isEmpty ∧ delta.compactedFrom = delta.compactedTo)))
    (invalidContract "invalid history cleanup revision/count")
  Delta.validateRequests delta.revision none delta.requests

structure RequestMeta where
  completion : RequestCompletion
  heldBytes : ℕ
  deriving DecidableEq

structure EventMeta where
  completedAt : Option ℕ
  count : ℕ
  heldBytes : ℕ
  deriving DecidableEq

/-- Requests in completion order, ties broken by the key. -/
structure RequestOrderKey where
  completedAtUnixMs : ℕ
  key : RequestKey
  deriving DecidableEq

/-- Event revisions in completion order. -/
structure EventOrderKey where
  completedAtUnixMs : ℕ
  revision : ℕ
  deriving DecidableEq

instance : Ord RequestOrderKey where
  compare := compareLex (compareOn RequestOrderKey.completedAtUnixMs)
    (compareOn RequestOrderKey.key)

instance : TransOrd RequestOrderKey :=
  inferInstanceAs (TransCmp (compareLex
    (compareOn RequestOrderKey.completedAtUnixMs)
    (compareOn RequestOrderKey.key)))

instance : LawfulEqOrd RequestOrderKey where
  eq_of_compare {left right} heq := by
    have hfields := compareLex_eq_eq.mp heq
    cases left
    cases right
    simpa [compareOn] using hfields

instance : Ord EventOrderKey where
  compare := compareLex (compareOn EventOrderKey.completedAtUnixMs)
    (compareOn EventOrderKey.revision)

instance : TransOrd EventOrderKey :=
  inferInstanceAs (TransCmp (compareLex
    (compareOn EventOrderKey.completedAtUnixMs)
    (compareOn EventOrderKey.revision)))

instance : LawfulEqOrd EventOrderKey where
  eq_of_compare {left right} heq := by
    have hfields := compareLex_eq_eq.mp heq
    cases left
    cases right
    simpa [compareOn] using hfields

/-- The capacity index over retained requests and events. -/
structure Index where
  requests : ExtTreeMap RequestKey RequestMeta
  requestOrder : ExtTreeSet RequestOrderKey
  requestBytes : ℕ
  events : ExtTreeMap ℕ EventMeta
  eventExpiry : ExtTreeSet EventOrderKey
  eventCount : ℕ
  eventBytes : ℕ

/-- The index of an empty history. -/
def Index.empty : Index := ⟨∅, ∅, 0, ∅, ∅, 0, 0⟩

/-- Charges one outcome, replacing what the key held before. -/
def Index.trackRequest (index : Index) (key : RequestKey)
    (completion : RequestCompletion) (heldBytes : ℕ) : Result Index := do
  ensure (key.isValid && decide (completion.revision ≠ 0) && decide (heldBytes ≠ 0))
    (invalidContract "invalid retained request metadata")
  let old := index.requests[key]?
  let bytes ← okOr (checkedReplace index.requestBytes
      (old.elim 0 RequestMeta.heldBytes) heldBytes)
    (invalidContract "request history byte overflow")
  let order := match old with
    | some old =>
      index.requestOrder.erase ⟨old.completion.completedAtUnixMs, key⟩
    | none => index.requestOrder
  return { index with
    requestOrder := order.insert ⟨completion.completedAtUnixMs, key⟩
    requests := index.requests.insert key ⟨completion, heldBytes⟩
    requestBytes := bytes }

/-- Charges the events of one new revision. -/
def Index.trackEvents (index : Index) (revision : ℕ) (completedAt : Option ℕ)
    (count heldBytes : ℕ) : Result Index := do
  ensure (decide (revision ≠ 0) && decide (count ≠ 0) &&
      decide (heldBytes ≠ 0) && !index.events.contains revision)
    (invalidContract "invalid or duplicate event revision metadata")
  let total ← okOr (checkedAdd index.eventCount count)
    (invalidContract "event history count overflow")
  let bytes ← okOr (checkedAdd index.eventBytes heldBytes)
    (invalidContract "event history byte overflow")
  return { index with
    events := index.events.insert revision ⟨completedAt, count, heldBytes⟩
    eventExpiry := match completedAt with
      | some time => index.eventExpiry.insert ⟨time, revision⟩
      | none => index.eventExpiry
    eventCount := total
    eventBytes := bytes }

/-- An item is expired once its age reaches the retention time. -/
def expired (now time ttl : ℕ) : Bool := (checkedSub now time).any fun age => decide (ttl ≤ age)

/-- Walks the requests in completion order and picks those to remove: protected
ones are passed over, and the walk stops at the first one that is neither over
a limit nor expired. -/
def Index.selectRequests (index : Index) (now requestTtl : ℕ) (limits : Limits)
    (isProtected : Finset RequestKey) :
    List RequestOrderKey → (count bytes : ℕ) → List RemovedRequest → Result (List RemovedRequest)
  | [], _, _, picked => .ok picked
  | item :: items, count, bytes, picked =>
    if picked.length = limits.cleanupItems then
      .ok picked
    else if item.key ∈ isProtected then
      selectRequests index now requestTtl limits isProtected items count bytes picked
    else if count ≤ limits.requestCount ∧ bytes ≤ limits.requestBytes ∧
        ¬ expired now item.completedAtUnixMs requestTtl then
      .ok picked
    else do
      let entry ← okOr index.requests[item.key]?
        (invalidContract "request retention order is orphaned")
      let count ← okOr (checkedSub count 1) (invalidContract "request retention count underflow")
      let bytes ← okOr (checkedSub bytes entry.heldBytes)
        (invalidContract "request retention byte underflow")
      selectRequests index now requestTtl limits isProtected items count bytes
        (picked ++ [⟨item.key, entry.completion⟩])

/-- Advances the compaction watermark over whole revisions while a limit is
exceeded or the revision is not after the oldest expired one. -/
def selectEvents (limits : Limits) (expiredRevision : Option ℕ) :
    List (ℕ × EventMeta) → (eventCount eventBytes through : ℕ) → Result ℕ
  | [], _, _, through => .ok through
  | (revision, entry) :: entries, eventCount, eventBytes, through =>
    if eventCount ≤ limits.eventCount ∧ eventBytes ≤ limits.eventBytes ∧
        expiredRevision.all (fun target => decide (target < revision)) then
      .ok through
    else do
      let eventCount ← okOr (checkedSub eventCount entry.count)
        (invalidContract "event retention count underflow")
      let eventBytes ← okOr (checkedSub eventBytes entry.heldBytes)
        (invalidContract "event retention byte underflow")
      selectEvents limits expiredRevision entries eventCount eventBytes revision

/-- Chooses the next retention step, if one is due. -/
def Index.select (index : Index) (revision compactedTo now : ℕ)
    (limits : Limits) (isProtected : Finset RequestKey) : Result (Option Delta) := do
  let limits ← limits.validate
  ensure (decide (compactedTo ≤ revision) &&
      (index.events.minKey?).all fun oldest => decide (compactedTo < oldest))
    (invalidContract "history index and compaction boundary disagree")
  ensure (decide (isProtected.card ≤ limits.protectedRequests))
    (unavailable "in-flight history protection capacity exhausted")
  let picked ← index.selectRequests now (asMillis limits.requestRetention) limits
    isProtected index.requestOrder.toList index.requests.size index.requestBytes []
  let requests := picked.insertionSort fun left right => (compare left.key right.key).isLE = true
  let remaining ← okOr (checkedSub limits.cleanupItems requests.length)
    (invalidContract "cleanup item accounting underflow")
  let expiredRevision := (index.eventExpiry.min?.filter fun item =>
    expired now item.completedAtUnixMs (asMillis limits.eventRetention)).map EventOrderKey.revision
  let through ← selectEvents limits expiredRevision
    (index.events.toList.take remaining) index.eventCount index.eventBytes
    compactedTo
  if requests.isEmpty ∧ through = compactedTo then
    return none
  else do
    let delta : Delta := ⟨revision, now, compactedTo, through, requests⟩
    delta.validate
    return some delta

/-- Removes one request from the index. -/
def Index.removeRequest (index : Index) (item : RemovedRequest) : Result Index := do
  let old ← okOr index.requests[item.key]? (invalidContract "history cleanup missing request")
  let bytes ← okOr (checkedSub index.requestBytes old.heldBytes)
    (invalidContract "request history byte underflow")
  return { index with
    requests := index.requests.erase item.key
    requestOrder := index.requestOrder.erase ⟨old.completion.completedAtUnixMs, item.key⟩
    requestBytes := bytes }

/-- Removes the oldest event revisions up to the new watermark. -/
def Index.removeEvents (compactedTo : ℕ) : List (ℕ × EventMeta) → Index → Result Index
  | [], index => .ok index
  | (revision, old) :: entries, index =>
    if compactedTo < revision then
      .ok index
    else do
      let count ← okOr (checkedSub index.eventCount old.count)
        (invalidContract "event history count underflow")
      let bytes ← okOr (checkedSub index.eventBytes old.heldBytes)
        (invalidContract "event history byte underflow")
      removeEvents compactedTo entries { index with
        events := index.events.erase revision
        eventExpiry := match old.completedAt with
          | some time => index.eventExpiry.erase ⟨time, revision⟩
          | none => index.eventExpiry
        eventCount := count
        eventBytes := bytes }

/-- Applies a durable retention step to the index. -/
def Index.apply (index : Index) (delta : Delta) (revision compactedTo : ℕ) : Result Index := do
  delta.validate
  ensure (decide (delta.revision = revision ∧ delta.compactedFrom = compactedTo))
    (invalidContract "history cleanup does not follow current state")
  ensure (delta.requests.all fun item =>
      index.requests[item.key]?.any fun old =>
        decide (old.completion = item.completion))
    (invalidContract "history cleanup request generation mismatch")
  ensure (decide (delta.compactedTo ≤ compactedTo) || index.events.contains delta.compactedTo)
    (invalidContract "history cleanup event boundary missing")
  let next ← delta.requests.foldlM Index.removeRequest index
  Index.removeEvents delta.compactedTo next.events.toList next

/-- The request and event totals respect the limits, and so does their sum
with the fixed reserve of the index. -/
def Index.fits (index : Index) (limits : Limits) : Bool :=
  ((checkedAdd index.requestBytes index.eventBytes).bind
      fun bytes => checkedAdd bytes indexBaseBytes).isSome &&
    decide (index.requests.size ≤ limits.requestCount ∧ index.requestBytes ≤ limits.requestBytes ∧
      index.eventCount ≤ limits.eventCount ∧ index.eventBytes ≤ limits.eventBytes)

end AgentDx.Store
