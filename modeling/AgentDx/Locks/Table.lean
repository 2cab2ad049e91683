import AgentDx.Lib.Word
import AgentDx.Lib.Segment
import AgentDx.Lib.Search

/-!
# The advisory lock table

One table holds the locks of one inode.  POSIX byte-range locks and BSD flocks
live in the same table under different kinds.  Every operation runs under the
table's mutex, so an operation is a function from table to table; it also says
whether it notified the condition variable.  A blocking request is cut where its
thread waits: `setlkBlocking` runs up to the first wait and `resumeWaiter` from
one wait to the next.
-/

namespace AgentDx.Locks

open Std Segments

/-! ## Ranges -/

/-- A byte offset; the largest one stands for the end of the file. -/
abbrev Offset := Fin Word.size

instance : NeZero Word.size := ⟨by simp [Word.size]⟩

section

variable (offset : Offset) (range other : FileLockRange)

/-- Inclusive byte range. -/
abbrev FileLockRange := Segment Offset

def Offset.checkedNext : Option Offset :=
  if hnext : offset.val + 1 < Word.size then some ⟨offset.val + 1, hnext⟩
  else none

def Offset.saturatingNext : Offset :=
  if hnext : offset.val + 1 < Word.size then ⟨offset.val + 1, hnext⟩
  else offset

def Offset.saturatingPrevious : Offset := ⟨offset.val - 1, (Nat.sub_le _ _).trans_lt offset.isLt⟩

def isValid (range : FileLockRange) : Bool := range.start ≤ range.stop

def overlaps : Bool := range.start ≤ other.stop && other.start ≤ range.stop

def touchesOrOverlaps : Bool :=
  overlaps range other || range.stop.checkedNext == some other.start ||
    other.stop.checkedNext == some range.start

end

/-! ## Locks and requests -/

/-- POSIX and flock locks are independent for conflict checks. -/
inductive FileLockKind where
  | posix
  | flock
  deriving DecidableEq

inductive FileLockType where
  | read
  | write
  | unlock
  deriving DecidableEq

structure FileLockOwner where
  ingressSessionId : String
  kernelOwner : ℕ
  deriving DecidableEq

/-- The identity of a blocking request, scoped to its ingress session. -/
structure LockWaiterId where
  ingressSessionId : String
  requestId : ℕ
  deriving DecidableEq

structure ActiveLock where
  kind : FileLockKind
  owner : FileLockOwner
  pid : ℕ
  range : FileLockRange
  lockType : FileLockType
  seq : ℕ
  deriving DecidableEq

structure FileLockConflict where
  kind : FileLockKind
  owner : FileLockOwner
  pid : ℕ
  range : FileLockRange
  lockType : FileLockType
  deriving DecidableEq

structure LockRequest where
  kind : FileLockKind
  owner : FileLockOwner
  pid : ℕ
  range : FileLockRange
  lockType : FileLockType
  deriving DecidableEq

inductive LockWaiterOutcome where
  | unknown
  | cancelled
  | granted
  deriving DecidableEq

inductive LockError where
  | wouldBlock
  | deadlock
  | interrupted
  | capacity
  | duplicateWaiter
  | invalidRange
  deriving DecidableEq

def FileLockKind.rank : FileLockKind → ℕ
  | .posix => 0
  | .flock => 1

def FileLockType.rank : FileLockType → ℕ
  | .read => 0
  | .write => 1
  | .unlock => 2

instance : Ord FileLockOwner where
  compare := compareLex (compareOn FileLockOwner.ingressSessionId)
    (compareOn FileLockOwner.kernelOwner)

instance : TransOrd FileLockOwner :=
  inferInstanceAs (TransCmp (compareLex
    (compareOn FileLockOwner.ingressSessionId)
    (compareOn FileLockOwner.kernelOwner)))

instance : LawfulEqOrd FileLockOwner where
  eq_of_compare {left right} heq := by
    have hfields := compareLex_eq_eq.mp heq
    cases left
    cases right
    simpa [compareOn] using hfields

instance : Ord LockWaiterId where
  compare := compareLex (compareOn LockWaiterId.ingressSessionId) (compareOn LockWaiterId.requestId)

instance : TransOrd LockWaiterId :=
  inferInstanceAs (TransCmp (compareLex
    (compareOn LockWaiterId.ingressSessionId)
    (compareOn LockWaiterId.requestId)))

instance : LawfulEqOrd LockWaiterId where
  eq_of_compare {left right} heq := by
    have hfields := compareLex_eq_eq.mp heq
    cases left
    cases right
    simpa [compareOn] using hfields

def ActiveLock.conflict (lock : ActiveLock) : FileLockConflict where
  kind := lock.kind
  owner := lock.owner
  pid := lock.pid
  range := lock.range
  lockType := lock.lockType

/-! ## The table -/

structure LockTableLimits where
  maxLocks : ℕ
  maxWaiters : ℕ
  maxCancelledWaiters : ℕ
  deriving DecidableEq

structure WaitingLock where
  owner : FileLockOwner
  kind : FileLockKind
  blockers : List FileLockOwner
  deriving DecidableEq

structure StoredWaiterOutcome where
  outcome : LockWaiterOutcome
  owner : Option FileLockOwner
  kind : Option FileLockKind
  deriving DecidableEq

abbrev Waiters := ExtTreeMap LockWaiterId WaitingLock

structure LockTableState where
  locks : List ActiveLock := []
  nextSeq : ℕ := 0
  waiters : Waiters := ∅
  waiterOutcomes : ExtTreeMap LockWaiterId StoredWaiterOutcome := ∅
  retiredWaiters : ExtTreeSet LockWaiterId := ∅
  closedSessions : ExtTreeSet String := ∅
  closedSessionAdmissionClosed : Bool := false
  invalidated : Bool := false

/-- What an operation leaves: the table, its result, and whether it notified
all waiting threads. -/
structure Reply (R : Type) where
  state : LockTableState
  result : R
  notified : Bool

def refuse {R : Type} (state : LockTableState) (error : LockError) : Reply (Except LockError R) :=
  ⟨state, .error error, false⟩

def validateRange (range : FileLockRange) : Except LockError Unit :=
  if isValid range then .ok () else .error .invalidRange

/-! ## Conflicts -/

def conflicts (lock : ActiveLock) (request : LockRequest) : Bool :=
  lock.kind = request.kind && lock.owner ≠ request.owner && overlaps lock.range request.range &&
    (lock.lockType = .write || request.lockType = .write)

/-- The first lock with the least range start and sequence number. -/
def earliest : List ActiveLock → Option ActiveLock
  | [] => none
  | lock :: locks =>
    match earliest locks with
    | none => some lock
    | some other =>
      if other.range.start < lock.range.start ∨
          other.range.start = lock.range.start ∧ other.seq < lock.seq then
        some other
      else
        some lock

def firstConflict (locks : List ActiveLock) (request : LockRequest) : Option ActiveLock :=
  if request.lockType = .unlock then none
  else earliest (locks.filter (conflicts · request))

def blockingOwners (locks : List ActiveLock) (request : LockRequest) : List FileLockOwner :=
  (locks.filter (conflicts · request)).foldl
    (fun owners lock =>
      if lock.owner ∈ owners then owners else owners ++ [lock.owner]) []

/-! ## Deadlocks -/

section

variable (waiters : Waiters) (owner : FileLockOwner) (blockers : List FileLockOwner)

/-- The owners that the waiting requests of `owner` were last blocked by. -/
def waitsFor : List FileLockOwner :=
  (waiters.toList.filter (·.2.owner = owner)).flatMap (·.2.blockers)

/-- The search for `owner` among the owners its blockers wait for. -/
def deadlockSearch : Option (Bool × List FileLockOwner) :=
  Search.searchAny (Search.searchFrom (waitsFor waiters) owner (waiters.size + 2)) blockers []

def wouldDeadlock : Bool := (deadlockSearch waiters owner blockers).any Prod.fst

end

/-! ## Applying a request -/

section

variable (locks : List ActiveLock) (kind : FileLockKind) (state : LockTableState)
  (request : LockRequest) (owner : FileLockOwner) (remove : FileLockRange)

def trimLock (lock : ActiveLock) : List ActiveLock :=
  if lock.kind ≠ kind ∨ lock.owner ≠ owner ∨ !overlaps lock.range remove then
    [lock]
  else
    (if lock.range.start < remove.start then
      [{ lock with
          range := ⟨lock.range.start, remove.start.saturatingPrevious⟩ }]
    else []) ++ (if remove.stop < lock.range.stop then
      [{ lock with range := ⟨remove.stop.saturatingNext, lock.range.stop⟩ }]
    else [])

def trimSameOwnerRange : List ActiveLock := locks.flatMap (trimLock kind owner remove)

/-- Locks of one class are merged where their ranges meet. -/
def classCompare : ActiveLock → ActiveLock → Ordering :=
  compareLex (compareOn fun lock => lock.kind.rank)
    (compareLex (compareOn ActiveLock.owner) (compareOn fun lock => lock.lockType.rank))

def lockCompare : ActiveLock → ActiveLock → Ordering :=
  compareLex classCompare
    (compareLex (compareOn fun lock => lock.range.start.val)
      (compareLex (compareOn fun lock => lock.range.stop.val) (compareOn ActiveLock.seq)))

/-- One step of the merge; the last merged lock is the head of the list. -/
def mergeLock (merged : List ActiveLock) (lock : ActiveLock) : List ActiveLock :=
  match merged with
  | [] => [lock]
  | last :: rest =>
    if last.kind = lock.kind ∧ last.owner = lock.owner ∧ last.lockType = lock.lockType ∧
        touchesOrOverlaps last.range lock.range then
      { last with
        range := ⟨last.range.start, max last.range.stop lock.range.stop⟩
        seq := min last.seq lock.seq } :: rest
    else
      lock :: last :: rest

def coalesce : List ActiveLock :=
  ((locks.insertionSort fun left right =>
    (lockCompare left right).isLE = true).foldl mergeLock []).reverse

def LockRequest.lock (seq : ℕ) : ActiveLock where
  kind := request.kind
  owner := request.owner
  pid := request.pid
  range := request.range
  lockType := request.lockType
  seq := seq

/-- The locks and the sequence counter a request leaves. -/
def candidate : List ActiveLock × ℕ :=
  let trimmed := trimSameOwnerRange state.locks request.kind request.owner request.range
  if request.lockType = .unlock then
    (trimmed, state.nextSeq)
  else
    (coalesce (trimmed ++ [request.lock state.nextSeq]), (state.nextSeq + 1) % Word.size)

def applyLock (limits : LockTableLimits) (state : LockTableState)
    (request : LockRequest) : Except LockError LockTableState :=
  if limits.maxLocks < (candidate state request).1.length then
    .error .capacity
  else
    .ok { state with
      locks := (candidate state request).1
      nextSeq := (candidate state request).2 }

end

/-! ## Outcomes of waiters -/

section

variable (limits : LockTableLimits) (state : LockTableState) (owner : FileLockOwner)
  (kind : Option FileLockKind) (waiter : LockWaiterId) (stored : StoredWaiterOutcome)

def ensureWaiterOutcomeCapacity : Except LockError Unit :=
  if waiter ∉ state.waiterOutcomes ∧ limits.maxCancelledWaiters ≤
        state.waiterOutcomes.size + state.retiredWaiters.size then
    .error .capacity
  else
    .ok ()

def rememberWaiterOutcome : Except LockError LockTableState :=
  match ensureWaiterOutcomeCapacity limits state waiter with
  | .error error => .error error
  | .ok () =>
    .ok { state with
      waiterOutcomes := state.waiterOutcomes.insert waiter stored }

/-- A granted outcome of the owner becomes a cancelled one. -/
def retainOutcome : StoredWaiterOutcome :=
  if stored.outcome = .granted ∧ stored.owner = some owner ∧ (kind = none ∨ stored.kind = kind) then
    { stored with outcome := .cancelled }
  else
    stored

def retainWaiterOutcomes : LockTableState :=
  { state with
    waiterOutcomes := state.waiterOutcomes.map fun _ stored => retainOutcome owner kind stored }

end

/-! ## Queries and non-blocking requests -/

def getlk (state : LockTableState) (request : LockRequest) :
    Except LockError (Option FileLockConflict) :=
  match validateRange request.range with
  | .error error => .error error
  | .ok () =>
    if state.invalidated then .error .interrupted
    else .ok ((firstConflict state.locks request).map ActiveLock.conflict)

def setlkNonblocking (limits : LockTableLimits) (state : LockTableState)
    (request : LockRequest) : Reply (Except LockError Unit) :=
  match validateRange request.range with
  | .error error => refuse state error
  | .ok () =>
    if state.invalidated then
      refuse state .interrupted
    else if request.lockType ≠ .unlock ∧ request.owner.ingressSessionId ∈ state.closedSessions then
      refuse state .interrupted
    else if request.lockType ≠ .unlock ∧ state.closedSessionAdmissionClosed then
      refuse state .capacity
    else if request.lockType ≠ .unlock ∧ (firstConflict state.locks request).isSome then
      refuse state .wouldBlock
    else
      match applyLock limits state request with
      | .error error => refuse state error
      | .ok applied => ⟨applied, .ok (), true⟩

/-! ## Blocking requests -/

section

variable (limits : LockTableLimits) (state : LockTableState) (request : LockRequest)
  (waiter : LockWaiterId)

/-- `none` is a thread that waits on the condition variable. -/
abbrev BlockingResult := Option (Except LockError Unit)

def returns (error : LockError) : Reply BlockingResult :=
  ⟨state, some (.error error), false⟩

/-- Grants a request without conflict. -/
def grantWaiter : Reply BlockingResult :=
  match ensureWaiterOutcomeCapacity limits state waiter with
  | .error error => returns state error
  | .ok () =>
    match applyLock limits state request with
    | .error error => returns state error
    | .ok applied =>
      ⟨{ applied with
          waiterOutcomes := applied.waiterOutcomes.insert waiter
            ⟨.granted, some request.owner, some request.kind⟩ }, some (.ok ()), true⟩

/-- The first round of the loop, for a request that is not registered yet. -/
def registerWaiter : Reply BlockingResult :=
  if waiter ∈ state.waiters then
    returns state .duplicateWaiter
  else if request.lockType = .unlock ∨ (firstConflict state.locks request).isNone then
    grantWaiter limits state request waiter
  else if wouldDeadlock state.waiters request.owner
      (blockingOwners state.locks request) then
    returns state .deadlock
  else if limits.maxWaiters ≤ state.waiters.size then
    returns state .capacity
  else
    ⟨{ state with
        waiters := state.waiters.insert waiter
          ⟨request.owner, request.kind, blockingOwners state.locks request⟩ }, none, false⟩

def unregister : LockTableState :=
  { state with waiters := state.waiters.erase waiter }

/-- Every later round of the loop. -/
def recheckWaiter : Reply BlockingResult :=
  if request.lockType = .unlock ∨ (firstConflict state.locks request).isNone then
    grantWaiter limits (unregister state waiter) request waiter
  else if wouldDeadlock state.waiters request.owner
      (blockingOwners state.locks request) then
    returns (unregister state waiter) .deadlock
  else
    ⟨{ state with
        waiters := state.waiters.alter waiter (Option.map fun waiting =>
          { waiting with blockers := blockingOwners state.locks request }) }, none, false⟩

/-- The checks a blocking request passes before its loop. -/
def admitBlocking : Except LockError Unit :=
  match validateRange request.range with
  | .error error => .error error
  | .ok () =>
    if state.invalidated then
      .error .interrupted
    else if request.lockType ≠ .unlock ∧ (request.owner.ingressSessionId ∈ state.closedSessions ∨
          waiter.ingressSessionId ∈ state.closedSessions) then
      .error .interrupted
    else if request.lockType ≠ .unlock ∧ state.closedSessionAdmissionClosed then
      .error .capacity
    else
      match state.waiterOutcomes[waiter]?.map StoredWaiterOutcome.outcome with
      | some .cancelled => .error .interrupted
      | some .unknown => .error .interrupted
      | some .granted => .error .duplicateWaiter
      | none =>
        if waiter ∈ state.retiredWaiters then .error .interrupted
        else .ok ()

def setlkBlocking : Reply BlockingResult :=
  match admitBlocking state request waiter with
  | .error error => returns state error
  | .ok () => registerWaiter limits state request waiter

/-- What a thread looks at first when its wait ends. -/
def isInterrupted : Bool :=
  state.invalidated || (state.waiterOutcomes[waiter]?.any fun stored =>
      stored.outcome = .cancelled) ||
    state.closedSessions.contains request.owner.ingressSessionId ||
    state.closedSessions.contains waiter.ingressSessionId || !state.waiters.contains waiter

def resumeWaiter : Reply BlockingResult :=
  if isInterrupted state request waiter then
    returns (unregister state waiter) .interrupted
  else
    recheckWaiter limits state request waiter

end

/-! ## Cancellation, acknowledgement and release -/

section

variable (limits : LockTableLimits) (state : LockTableState) (waiter : LockWaiterId)
  (session : String)

def cancelWaiterWithOutcome : Reply (Except LockError LockWaiterOutcome) :=
  if state.invalidated then
    ⟨state, .ok .unknown, true⟩
  else
    match state.waiters[waiter]? with
    | some waiting =>
      match ensureWaiterOutcomeCapacity limits state waiter with
      | .error error => refuse state error
      | .ok () =>
        match rememberWaiterOutcome limits (unregister state waiter) waiter
          ⟨.cancelled, some waiting.owner, some waiting.kind⟩ with
        | .error error => refuse (unregister state waiter) error
        | .ok remembered => ⟨remembered, .ok .cancelled, true⟩
    | none =>
      match state.waiterOutcomes[waiter]? with
      | some stored => ⟨state, .ok stored.outcome, false⟩
      | none =>
        if waiter ∈ state.retiredWaiters then
          ⟨state, .ok .unknown, false⟩
        else if waiter.ingressSessionId ∈ state.closedSessions ∨
            state.closedSessionAdmissionClosed then
          ⟨state, .ok .unknown, true⟩
        else
          match rememberWaiterOutcome limits state waiter
            ⟨.cancelled, none, none⟩ with
          | .error error => refuse state error
          | .ok remembered => ⟨remembered, .ok .unknown, true⟩

def acknowledgeWaiter : Reply (Option LockWaiterOutcome) :=
  match state.waiterOutcomes[waiter]? with
  | none => ⟨state, none, false⟩
  | some stored =>
    ⟨{ state with
        waiterOutcomes := state.waiterOutcomes.erase waiter
        retiredWaiters := state.retiredWaiters.insert waiter }, some stored.outcome, false⟩

/-- Drops the locks of one kind that an owner holds. -/
def releaseOwner (kind : FileLockKind) (state : LockTableState)
    (owner : FileLockOwner) : Reply Unit :=
  let kept := state.locks.filter fun lock =>
    !(lock.kind = kind && lock.owner = owner)
  ⟨retainWaiterOutcomes { state with locks := kept } owner (some kind), (),
    kept.length ≠ state.locks.length⟩

def releasePosixOwner : LockTableState → FileLockOwner → Reply Unit := releaseOwner .posix

def releaseFlockOwner : LockTableState → FileLockOwner → Reply Unit := releaseOwner .flock

def invalidate : Reply Unit := ⟨{ nextSeq := state.nextSeq, invalidated := true }, (), true⟩

/-- Records a closed session, or closes the table where no record fits. -/
def closeSession : LockTableState :=
  if session ∈ state.closedSessions then
    state
  else if limits.maxCancelledWaiters = 0 ∨
      limits.maxCancelledWaiters ≤ state.closedSessions.size then
    { state with closedSessionAdmissionClosed := true }
  else
    { state with closedSessions := state.closedSessions.insert session }

/-- Drops what the table holds for a session. -/
def dropSession : LockTableState :=
  { state with
    locks := state.locks.filter (·.owner.ingressSessionId ≠ session)
    waiters := state.waiters.filter fun waiter waiting =>
      waiter.ingressSessionId ≠ session && waiting.owner.ingressSessionId ≠ session
    waiterOutcomes := state.waiterOutcomes.filter fun waiter _ =>
      waiter.ingressSessionId ≠ session
    retiredWaiters := state.retiredWaiters.filter fun waiter =>
      waiter.ingressSessionId ≠ session }

def releaseSession : Reply Unit :=
  if state.invalidated then
    ⟨state, (), false⟩
  else
    ⟨closeSession limits (dropSession state session) session, (),
      (dropSession state session).locks.length ≠ state.locks.length ∨
        (dropSession state session).waiters.size ≠ state.waiters.size⟩

end

end AgentDx.Locks
