import AgentDx.Lib.Cut
import AgentDx.Store.Recovery

/-!
# The watch stream

A watcher asks for the events after a revision.  The reply is cut by a requested
count, by the largest number of events and by the bytes of a reply, but only
between revisions, and it says where to go on.  Once events after the requested
revision were compacted away the reply says so instead.

A consumer starts at revision zero and goes on where each reply tells it to.
Beside the store and its cursor the system keeps what it was given and, as a
ghost, every event that was ever published.
-/

namespace AgentDx.Store

open Dfs Word Cut

def watchResponseMaxEvents : ℕ := 16384
def watchResponseMaxBytes : ℕ := 16 * 1024 * 1024
def watchResponseBaseBytes : ℕ := 64 * 1024

inductive RecoveryReason where
  | watchCompacted
  | nodeSessionRestarted
  | backendLeaderChanged
  deriving DecidableEq

structure RecoveryCursor where
  resumeAfter : ℕ
  reason : RecoveryReason
  deriving DecidableEq

inductive WatchBatch where
  | events (startRevision nextRevision : ℕ) (events : List WatchEvent)
  | compacted (requestedAfter compactedTo : ℕ) (recovery : RecoveryCursor)

/-! ## Replies -/

/-- The order of revisions and, within a revision, of positions. -/
def WatchEvent.precedes (left right : WatchEvent) : Prop :=
  left.revision < right.revision ∨
    (left.revision = right.revision ∧ left.eventIndex < right.eventIndex)

instance (left right : WatchEvent) : Decidable (left.precedes right) :=
  inferInstanceAs (Decidable (_ ∨ _))

/-- Checks the order of the events and returns the last of them. -/
def validateEvents (startRevision : ℕ) :
    Option WatchEvent → List WatchEvent → Result (Option WatchEvent)
  | previous, [] => .ok previous
  | previous, event :: events => do
      ensure (decide (startRevision < event.revision) &&
          previous.all fun before => decide (before.precedes event))
        (invalidContract "watch events must be strictly ordered")
      validateEvents startRevision (some event) events

def WatchBatch.validateOrder : WatchBatch → Result Unit
  | .events startRevision nextRevision found => do
      let previous ← validateEvents startRevision none found
      ensure (previous.all fun last => decide (last.revision < nextRevision))
        (invalidContract "next_revision must be greater than the last event")
  | .compacted _ _ _ => .ok ()

section Watch

variable [footprint : Footprint]

/-- The number of events of a reply and their bytes.  `taken` events and `bytes`
were accepted so far, `complete` of both up to the current revision. -/
def watchLoop (limit : ℕ) : List (Owned WatchEvent) → (taken bytes : ℕ) →
    (complete : ℕ × ℕ) → (last : Option ℕ) → Result (ℕ × ℕ)
  | [], taken, bytes, _, _ => .ok (taken, bytes)
  | event :: events, taken, bytes, complete, last =>
    let fresh := decide (last ≠ some event.value.revision)
    let complete := if fresh then (taken, bytes) else complete
    if fresh ∧ 0 < limit ∧ limit ≤ taken then
      .ok (taken, bytes)
    else do
      let held ← eventCharge event
      let next ← okOr (checkedAdd bytes held) (full "watch response byte overflow")
      if watchResponseMaxEvents ≤ taken ∨ watchResponseMaxBytes < next then
        if complete.1 = 0 then
          .error (full "one watch revision exceeds response limits; recover by scanning authority")
        else
          .ok complete
      else
        watchLoop limit events (taken + 1) next complete (some event.value.revision)

/-- `SharedEvents::after`. -/
def eventsAfter (events : List (Owned WatchEvent)) (revision : ℕ) : ℕ :=
  bisect (fun event : Owned WatchEvent => event.value.revision) events revision 0 events.length

/-- `spare` is how many more events the reply's vector was given room for. -/
def State.watch (state : State) (afterRevision limit spare : ℕ) : Result WatchBatch :=
  if afterRevision < state.compactedTo then
    .ok (.compacted afterRevision state.compactedTo ⟨state.revision, .watchCompacted⟩)
  else do
    let start := eventsAfter state.events afterRevision
    let (count, bytes) ← watchLoop limit (state.events.drop start) 0
      watchResponseBaseBytes (0, watchResponseBaseBytes) none
    let spareBytes ← okOr (checkedMul spare footprint.sizeWatchEvent)
      (full "watch response capacity overflow")
    ensure ((checkedAdd bytes spareBytes).any fun total =>
        decide (total ≤ watchResponseMaxBytes))
      (full "watch response allocation exceeds byte bound")
    let events := ((state.events.drop start).take count).map Owned.value
    let batch : WatchBatch := .events afterRevision
      (events.getLast?.elim (nextRevision afterRevision)
        fun event => nextRevision event.revision) events
    batch.validateOrder
    return batch

/-! ## One consumer -/

/-- The store, its published events, and the consumer with what it received. -/
structure Stream where
  state : State
  published : List WatchEvent
  cursor : ℕ
  delivered : List WatchEvent

def Stream.start : Stream := ⟨.default, [], 0, []⟩

inductive StreamEvent where
  | committed
  | compacted
  | delivered (events : List WatchEvent)
  | reported
  | refused

variable [Codec]

inductive StreamStep : Stream → StreamEvent → Stream → Prop where
  | commit {stream : Stream} {prepared clock mutation completedAt byteLimit revision reply record}
      (hprepare : stream.state.prepare clock mutation completedAt byteLimit =
        .ok (prepared, .committed revision reply, some record)) :
      StreamStep stream .committed { stream with
        state := prepared
        published := stream.published ++ prepared.eventsSince stream.state.events.length }
  | compact {stream : Stream} {next delta} (hretain : stream.state.applyHistory delta = .ok next) :
      StreamStep stream .compacted { stream with state := next }
  | deliver {stream : Stream} {limit spare startRevision nextRevision events}
      (hwatch : stream.state.watch stream.cursor limit spare =
        .ok (.events startRevision nextRevision events)) :
      StreamStep stream (.delivered events) { stream with
        cursor := nextRevision - 1
        delivered := stream.delivered ++ events }
  | report {stream : Stream} {limit spare requestedAfter compactedTo recovery}
      (hwatch : stream.state.watch stream.cursor limit spare =
        .ok (.compacted requestedAfter compactedTo recovery)) : StreamStep stream .reported stream
  | refuse {stream : Stream} {limit spare error}
      (hwatch : stream.state.watch stream.cursor limit spare = .error error) :
      StreamStep stream .refused stream

end Watch

end AgentDx.Store
