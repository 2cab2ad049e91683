import AgentDx.Dfs.Service

/-!
# Write leases

The right to publish versions of a file is a lease: one entity per inode with
the holder, an epoch and an expiry.  Acquiring takes an absent or expired lease
over under the next epoch and extends a live one of the same holder; renewing
only extends.  Either way the lease that was read is pinned by the transaction.
-/

namespace AgentDx.Dfs

open Store Client Std Word Program

def leaseExpiry (leaseSeconds : ℕ) : Service ℕ := do
  ensure (decide (leaseSeconds ≠ 0)) (invalid "lease_seconds must be greater than zero")
  let time ← now
  return saturatingAdd time (saturatingMul leaseSeconds 1000)

def replayedLease (callerId : String) (operationId : OperationId)
    (operation : StoreOperation) : Service (Option WriteLease) := do
  match ← replayedResult callerId operationId operation with
  | none => return none
  | some (.dfsWriteLease lease) => return some lease
  | some _ => fail (invalid "DFS operation replay returned the wrong result")

def readLease (inodeId : InodeId) : Service (Option WriteLease) := do
  match ← read (.dfsWriteLease inodeId) with
  | some (.dfsWriteLease lease) => return some lease
  | _ => return none

/-- The condition that pins what was read as the lease of an inode. -/
def pinLease (inodeId : InodeId) : Option WriteLease → TxnCondition
  | some current => .entityEquals (.dfsWriteLease current)
  | none => .missing (.dfsWriteLease inodeId)

/-- The transaction that stores a lease in place of the one read. -/
def leaseTxn (request : RequestKey) (operation : StoreOperation)
    (pin : TxnCondition) (lease : WriteLease) : MetaTxn :=
  serviceTxn request operation [pin] [putEntity (.dfsWriteLease lease)] (.dfsWriteLease lease)

/-- The lease an acquisition works on: the stored one, or a blank of epoch 0. -/
def leaseBase (existing : Option WriteLease) (callerId ownerSessionId : String)
    (inodeId : InodeId) : WriteLease :=
  existing.getD ⟨inodeId, callerId, ownerSessionId, 0, 0⟩

/-- The lease belongs to this node and session. -/
def WriteLease.heldBy (lease : WriteLease) (nodeId sessionId : String) : Bool :=
  decide (lease.ownerNodeId = nodeId) && decide (lease.ownerSessionId = sessionId)

/-- The lease granted on top of `base` at `time`: an extension for its live
holder, the next epoch for anyone else. -/
def grantLease (base : WriteLease) (callerId ownerSessionId : String)
    (time requestedExpiry : ℕ) : WriteLease :=
  let extends_ := base.heldBy callerId ownerSessionId && decide (time < base.expiresAtUnixMs)
  { base with
    ownerNodeId := callerId
    ownerSessionId := ownerSessionId
    leaseEpoch := if extends_ then base.leaseEpoch
      else saturatingAdd base.leaseEpoch 1
    expiresAtUnixMs := if extends_ then max base.expiresAtUnixMs requestedExpiry
      else requestedExpiry }

def acquireWriteLease (callerId ownerSessionId : String)
    (operationId : OperationId) (inodeId : InodeId) (leaseSeconds : ℕ) : Service WriteLease := do
  requireId callerId "caller_id"
  requireId ownerSessionId "owner_session_id"
  requireId operationId "operation_id"
  requireId inodeId "inode_id"
  match ← replayedLease callerId operationId .dfsAcquireWriteLease with
  | some lease => return lease
  | none => do
      let inode ← getInode inodeId
      ensure (decide (inode.kind = .regular)) (invalid "DFS write lease requires a regular file")
      let existing ← readLease inodeId
      let time ← now
      let base := leaseBase existing callerId ownerSessionId inodeId
      ensure (!(decide (time < base.expiresAtUnixMs) && !base.heldBy callerId ownerSessionId))
        (conflict "DFS write lease is held by another live owner")
      let requestedExpiry ← leaseExpiry leaseSeconds
      let lease := grantLease base callerId ownerSessionId time requestedExpiry
      let outcome ← compareAndCommit (leaseTxn ⟨callerId, operationId⟩
        .dfsAcquireWriteLease (pinLease inodeId existing) lease)
      leaseOutcome outcome .dfsAcquireWriteLease

/-- The presented token is the identity of the stored lease. -/
def WriteLease.sameToken (current presented : WriteLease) : Bool :=
  decide (current.inodeId = presented.inodeId) &&
    decide (current.ownerNodeId = presented.ownerNodeId) &&
    decide (current.ownerSessionId = presented.ownerSessionId) &&
    decide (current.leaseEpoch = presented.leaseEpoch)

def validateWriteLease (callerId : String) (inodeId : InodeId)
    (presented : WriteLease) : Service WriteLease := do
  ensure (decide (presented.inodeId = inodeId) && decide (presented.ownerNodeId = callerId))
    (conflict "DFS write lease does not belong to caller and inode")
  match ← readLease inodeId with
  | none => fail (conflict "DFS operation requires a current write lease")
  | some current => do
      let time ← now
      ensure (current.sameToken presented && decide (time < current.expiresAtUnixMs))
        (conflict "DFS write lease changed or expired")
      return current

/-- The stored lease, never shortened. -/
def renewLease (stored : WriteLease) (requestedExpiry : ℕ) : WriteLease :=
  { stored with expiresAtUnixMs := max stored.expiresAtUnixMs requestedExpiry }

/-- The bounded retry of a renewal. -/
def renewAttempts (callerId : String) (operationId : OperationId)
    (current : WriteLease) (leaseSeconds : ℕ) : ℕ → Service WriteLease
  | 0 => fail ⟨.metaDfsLeaseRetry, "DFS lease renewal remained contended after retries"⟩
  | attempts + 1 => do
      let stored ← validateWriteLease callerId current.inodeId current
      let requestedExpiry ← leaseExpiry leaseSeconds
      match ← compareAndCommit (leaseTxn ⟨callerId, operationId⟩
          .dfsRenewWriteLease (.entityEquals (.dfsWriteLease stored))
          (renewLease stored requestedExpiry)) with
      | .conditionFailed _ none =>
        renewAttempts callerId operationId current leaseSeconds attempts
      | outcome => leaseOutcome outcome .dfsRenewWriteLease

def renewWriteLease (callerId ownerSessionId : String)
    (operationId : OperationId) (current : WriteLease) (leaseSeconds : ℕ) : Service WriteLease := do
  requireId callerId "caller_id"
  requireId ownerSessionId "owner_session_id"
  requireId operationId "operation_id"
  requireId current.inodeId "current.inode_id"
  ensure (current.heldBy callerId ownerSessionId)
    (conflict "DFS write lease owner does not match renew caller")
  match ← replayedLease callerId operationId .dfsRenewWriteLease with
  | some lease => return lease
  | none => renewAttempts callerId operationId current leaseSeconds 16

/-! ## What the operations offer -/

section Offers

variable {Seen : State → Prop} {Read : ℕ → Prop} {txn : MetaTxn}

variable {leaseSeconds : ℕ}

@[simp]
lemma offers_leaseExpiry : ¬ (leaseExpiry leaseSeconds).Offers Seen Read txn := by
  simp [leaseExpiry, offers_bind]

variable {callerId : String} {operationId : OperationId}

@[simp]
lemma offers_replayedLease :
    ¬ (replayedLease callerId operationId operation).Offers Seen Read txn := by
  simp only [replayedLease, offers_bind, offers_replayedResult, false_or]
  rintro ⟨result, _, hrest⟩
  revert hrest
  split <;> simp

variable {inodeId : InodeId}

@[simp]
lemma offers_readLease : ¬ (readLease inodeId).Offers Seen Read txn := by
  simp only [readLease, offers_bind, offers_read, false_or]
  rintro ⟨result, _, hrest⟩
  revert hrest
  split <;> simp

/-- The lease an inode has in a state. -/
def leaseIn (state : State) (inodeId : InodeId) : Option WriteLease :=
  match state.entity? (.dfsWriteLease inodeId) with
  | some (.dfsWriteLease lease) => some lease
  | _ => none

@[simp]
lemma returns_readLease : (readLease inodeId).Returns Seen Read lease ↔
      ∃ view, Seen view ∧ leaseIn view inodeId = lease := by
  simp only [readLease, returns_bind, returns_read]
  constructor
  · rintro ⟨_, ⟨view, hseen, rfl⟩, hrest⟩
    refine ⟨view, hseen, ?_⟩
    unfold leaseIn
    split at hrest <;> simp_all
  · rintro ⟨view, hseen, rfl⟩
    refine ⟨_, ⟨view, hseen, rfl⟩, ?_⟩
    unfold leaseIn
    split <;> simp_all

@[simp]
lemma offers_validateWriteLease :
    ¬ (validateWriteLease callerId inodeId presented).Offers Seen Read txn := by
  simp only [validateWriteLease, offers_bind, offers_lift, offers_readLease, false_or]
  rintro ⟨_, _, lease, _, hrest⟩
  revert hrest
  split <;> simp [offers_bind]

/-- A token is accepted only while it is the identity of the stored lease and
that lease is unexpired. -/
lemma returns_validateWriteLease :
    (validateWriteLease callerId inodeId presented).Returns Seen Read current ↔
      presented.inodeId = inodeId ∧ presented.ownerNodeId = callerId ∧
        ∃ view time, Seen view ∧ Read time ∧ leaseIn view inodeId = some current ∧
          current.sameToken presented = true ∧ time < current.expiresAtUnixMs := by
  simp only [validateWriteLease, returns_bind, returns_lift,
    returns_readLease, ensure_eq_ok, Bool.and_eq_true, decide_eq_true_eq]
  constructor
  · rintro ⟨_, ⟨hino, hcaller⟩, lease, ⟨view, hseen, hlease⟩, hrest⟩
    refine ⟨hino, hcaller, view, ?_⟩
    cases lease with
    | none => simp at hrest
    | some stored =>
      simp only [returns_bind, returns_now, returns_lift,
        ensure_eq_ok, Bool.and_eq_true, decide_eq_true_eq, returns_pure] at hrest
      obtain ⟨time, hread, _, ⟨htoken, hlive⟩, rfl⟩ := hrest
      exact ⟨time, hseen, hread, hlease, htoken, hlive⟩
  · rintro ⟨hino, hcaller, view, time, hseen, hread, hlease, htoken, hlive⟩
    refine ⟨(), ⟨hino, hcaller⟩, _, ⟨view, hseen, rfl⟩, ?_⟩
    rw [hlease]
    simp only [returns_bind, returns_now, returns_lift, ensure_eq_ok,
      Bool.and_eq_true, decide_eq_true_eq, returns_pure]
    exact ⟨time, hread, (), ⟨htoken, hlive⟩, trivial⟩

/-- What an acquisition offers: the grant computed from a lease it read and a
time it read, with that lease pinned. -/
lemma offers_acquireWriteLease
    (hoffer : (acquireWriteLease callerId ownerSessionId operationId inodeId leaseSeconds).Offers
      Seen Read txn) :
    ∃ view time requestedExpiry, Seen view ∧ Read time ∧ let existing := leaseIn view inodeId
      let base := leaseBase existing callerId ownerSessionId inodeId
      (base.expiresAtUnixMs ≤ time ∨ base.heldBy callerId ownerSessionId = true) ∧
      txn = leaseTxn ⟨callerId, operationId⟩ .dfsAcquireWriteLease
        (pinLease inodeId existing)
        (grantLease base callerId ownerSessionId time requestedExpiry) := by
  simp only [acquireWriteLease, offers_bind, offers_lift, offers_replayedLease, false_or] at hoffer
  obtain ⟨_, _, _, _, _, _, _, _, replayed, _, hoffer⟩ := hoffer
  cases replayed with
  | some lease => simp at hoffer
  | none =>
    simp only [offers_bind, offers_lift, offers_getInode,
      offers_readLease, offers_now, offers_leaseExpiry, returns_readLease,
      returns_now, returns_lift, ensure_eq_ok, offers_compareAndCommit,
      false_or, and_false, exists_false, or_false] at hoffer
    obtain ⟨inode, _, _, _, _, ⟨view, hseen, rfl⟩, time, hread, _, hfree, requestedExpiry, _,
      rfl⟩ := hoffer
    refine ⟨view, time, requestedExpiry, hseen, hread, ?_, rfl⟩
    simpa using hfree

lemma offers_renewWriteLease
    (hoffer : (renewWriteLease callerId ownerSessionId operationId current leaseSeconds).Offers Seen
      Read txn) :
    ∃ view stored time requestedExpiry, Seen view ∧ Read time ∧
      leaseIn view current.inodeId = some stored ∧ time < stored.expiresAtUnixMs ∧
      txn = leaseTxn ⟨callerId, operationId⟩ .dfsRenewWriteLease
        (.entityEquals (.dfsWriteLease stored))
        (renewLease stored requestedExpiry) := by
  have hattempts : ∀ attempts, (renewAttempts callerId operationId current
      leaseSeconds attempts).Offers Seen Read txn →
      ∃ view stored time requestedExpiry, Seen view ∧ Read time ∧
        leaseIn view current.inodeId = some stored ∧ time < stored.expiresAtUnixMs ∧
        txn = leaseTxn ⟨callerId, operationId⟩ .dfsRenewWriteLease
          (.entityEquals (.dfsWriteLease stored))
          (renewLease stored requestedExpiry) := by
    intro attempts
    induction attempts with
    | zero => simp [renewAttempts]
    | succ attempts ih =>
      intro hoffer
      simp only [renewAttempts, offers_bind,
        offers_validateWriteLease, offers_leaseExpiry, false_or,
        returns_validateWriteLease, offers_compareAndCommit] at hoffer
      obtain ⟨stored, ⟨_, _, view, time, hseen, hread, hlease, _, hlive⟩,
        requestedExpiry, _, rfl | ⟨outcome, _, hoffer⟩⟩ := hoffer
      · exact ⟨view, stored, time, requestedExpiry, hseen, hread, hlease, hlive, rfl⟩
      · split at hoffer
        · exact ih hoffer
        · simp at hoffer
  simp only [renewWriteLease, offers_bind, offers_lift, offers_replayedLease, false_or] at hoffer
  obtain ⟨_, _, _, _, _, _, _, _, _, _, replayed, _, hoffer⟩ := hoffer
  cases replayed with
  | some lease => simp at hoffer
  | none => exact hattempts 16 hoffer

end Offers

end AgentDx.Dfs
