import AgentDx.Roots.Service

/-!
# What the root operations offer

Whatever states an operation has read, the transaction it offers has one of
seven shapes.  Reservations, activations, aborts and deactivations pin the
records they replace in their conditions; an acquisition and a recovery pin the
epoch of the root only, so for these the states read before are kept.
-/

namespace AgentDx.Roots

open Store Client Std Word Program
open Dfs hiding permissionDenied

/-! ## Reading offers nothing -/

section Offers

variable {Seen : State → Prop} {Read : ℕ → Prop} {txn : MetaTxn}

@[simp]
lemma offers_sessionIsLive : ¬ (sessionIsLive session sessionId).Offers Seen Read txn := by
  unfold sessionIsLive
  split <;> simp [offers_bind]

@[simp]
lemma offers_requireCurrentLiveSession :
    ¬ (requireCurrentLiveSession nodeId sessionId).Offers Seen Read txn := by
  simp only [requireCurrentLiveSession, offers_bind, offers_read, false_or]
  rintro ⟨entity, _, h⟩
  revert h
  split <;> simp [offers_bind]

@[simp]
lemma offers_reservationRequesterIsLive :
    ¬ (reservationRequesterIsLive reservation).Offers Seen Read txn := by
  simp only [reservationRequesterIsLive, offers_bind, offers_read, false_or]
  rintro ⟨entity, _, h⟩
  revert h
  split <;> simp

@[simp]
lemma offers_chooseHome [Hash] : ¬ (chooseHome rootId sessions selected).Offers Seen Read txn := by
  induction sessions generalizing selected with
  | nil => simp [chooseHome]
  | cons session sessions ih =>
    unfold chooseHome
    split
    · simp only [offers_bind, offers_now, false_or]
      rintro ⟨time, _, h⟩
      revert h
      split <;> exact ih
    · exact ih

@[simp]
lemma offers_selectHome [Hash] :
    ¬ (selectHome loadBalancing rootId nodeId sessionId).Offers Seen Read
      txn := by
  unfold selectHome
  split
  · simp only [offers_bind, offers_look, offers_chooseHome, false_or]
    rintro ⟨view, _, choice, _, h⟩
    revert h
    split <;> simp
  · simp

@[simp]
lemma offers_classifyReserveOutcome :
    ¬ (classifyReserveOutcome outcome rootId previous).Offers Seen Read
      txn := by
  unfold classifyReserveOutcome
  split
  · simp
  · simp [offers_bind]
  · simp only [offers_bind, offers_look, false_or]
    rintro ⟨view, _, h⟩
    revert h
    split <;> simp [offers_bind]

@[simp]
lemma offers_commitOrReplay : (commitOrReplay offered).Offers Seen Read txn ↔ txn = offered := by
  simp only [commitOrReplay, offers_bind, offers_compareAndCommit, or_iff_left_iff_imp]
  rintro ⟨outcome, _, h⟩
  revert h
  split <;> simp [offers_bind]

@[simp]
lemma offers_readReservation : ¬ (readReservation rootId).Offers Seen Read txn := by
  simp only [readReservation, offers_bind, offers_read, false_or]
  rintro ⟨entity, _, h⟩
  revert h
  split <;> simp

@[simp]
lemma offers_readVersioned : ¬ (readVersioned key).Offers Seen Read txn := by
  simp [readVersioned, offers_bind]

@[simp]
lemma returns_readVersioned : (readVersioned key).Returns Seen Read held ↔
      ∃ view, Seen view ∧ view.entities[key]? = held := by
  simp [readVersioned, returns_bind]

/-! ## Transactions -/

lemma offers_reserveSameIntent (hoffer : (reserveSameIntent input existing).Offers Seen Read txn) :
    txn = sameIntentTxn input existing := by
  simpa [reserveSameIntent, offers_bind] using hoffer

/-- The transactions of the root authority, with what their operation has
read. -/
inductive RootTxn (Seen : State → Prop) : MetaTxn → Prop where
  | sameIntent (input existing) : RootTxn Seen (sameIntentTxn input existing)
  | allocation (input home existing) {previous} (hroom : previous + 1 < size) :
      RootTxn Seen (allocationTxn input home existing previous)
  | activation (request record localPrepareId) :
      RootTxn Seen (activationTxn request record localPrepareId)
  | abortion (request rootId reservation) : RootTxn Seen (abortTxn request rootId reservation)
  | deactivation (root grant requestId) : RootTxn Seen (deactivationTxn root grant requestId)
  | acquisition {input : AcquireRootInput} {root home rights revision early late}
      (hearly : Seen early) (hlate : Seen late)
      (hroot : early.entity? (.root input.rootId) = some (.root root))
      (hhome : late.entity? (homeGrantKey root) = some (.rootGrant home)) :
      RootTxn Seen (acquisitionTxn input.requestId (acquiredGrant root home input rights) revision)
  | recovery {input : RecoverRootInput} {root early late} (hearly : Seen early) (hlate : Seen late)
      (hroot : early.entity? (.root input.rootId) = some (.root root)) :
      RootTxn Seen (recoveryTxn input.requestId
        (recoveredRoot root input.homeSessionId)
        (nextGeneration (late.entity? (homeGrantKey root))))

section Reserve

variable [Hash] {loadBalancing : Bool} {input : ReserveRootInput}

lemma offers_allocateRoot
    (hoffer : (allocateRoot loadBalancing input existing).Offers Seen Read txn) :
        RootTxn Seen txn := by
  simp only [allocateRoot, offers_bind, offers_selectHome, offers_look,
    offers_lift, offers_compareAndCommit, returns_lift, okOr_eq_ok,
    checkedAdd_eq_some, false_or] at hoffer
  obtain ⟨home, _, floor, _, epoch, ⟨hrm, rfl⟩, _, _, htx | hr⟩ := hoffer
  · exact htx ▸ .allocation input home existing hrm
  · obtain ⟨outcome, _, hmv | ⟨moved, _, hr⟩⟩ := hr
    · revert hmv
      split <;> simp [offers_bind]
    · revert hr
      split <;> simp [offers_bind]

lemma offers_reserveAttempt (hoffer : (reserveAttempt loadBalancing input).Offers Seen Read txn) :
    RootTxn Seen txn := by
  simp only [reserveAttempt, offers_bind, offers_read, offers_lift,
    offers_readReservation, false_or] at hoffer
  obtain ⟨_, _, _, _, reservation, _, hr⟩ := hoffer
  cases reservation with
  | none => exact offers_allocateRoot hr
  | some existing =>
    simp only at hr
    split at hr
    · simp only [offers_bind, offers_pure, and_false, exists_false, or_false] at hr
      exact offers_reserveSameIntent hr ▸ .sameIntent input existing
    · simp only [offers_bind, offers_reservationRequesterIsLive, offers_lift, false_or] at hr
      obtain ⟨_, _, _, _, hal⟩ := hr
      exact offers_allocateRoot hal

lemma offers_reserveAttempts
    (hoffer : (reserveAttempts loadBalancing input attempts).Offers Seen Read txn) :
        RootTxn Seen txn := by
  induction attempts with
  | zero => simp [reserveAttempts] at hoffer
  | succ attempts ih =>
    rw [reserveAttempts, offers_bind] at hoffer
    rcases hoffer with hat | ⟨output, _, hr⟩
    · exact offers_reserveAttempt hat
    · cases output with
      | some output => simp at hr
      | none => exact ih hr

lemma offers_reserveRoot (hoffer : (reserveRoot loadBalancing input).Offers Seen Read txn) :
    RootTxn Seen txn := by
  simp only [reserveRoot, offers_bind, offers_lift, offers_readOutcome, false_or] at hoffer
  obtain ⟨_, _, outcome, _, h⟩ := hoffer
  cases outcome with
  | none => exact offers_reserveAttempts h
  | some outcome => simp [offers_bind] at h

end Reserve

lemma offers_activateRoot (hoffer : (activateRoot input).Offers Seen Read txn) :
    RootTxn Seen txn := by
  simp only [activateRoot, offers_bind, offers_lift, offers_readOutcome, false_or] at hoffer
  obtain ⟨_, _, outcome, _, h⟩ := hoffer
  cases outcome with
  | some outcome =>
    simp only [replayActivation, offers_bind, offers_lift,
      offers_requireCurrentLiveSession, offers_read, false_or] at h
    obtain ⟨_, _, _, _, _, _, _, _, entity, _, h⟩ := h
    revert h
    split <;> simp [offers_bind]
  | none =>
    simp only [offers_bind, offers_read, false_or] at h
    obtain ⟨entity, _, h⟩ := h
    split at h
    · simp only [offers_bind, offers_lift, offers_commitOrReplay,
        and_false, exists_false, or_false, false_or] at h
      obtain ⟨_, _, rfl⟩ := h
      exact .activation _ _ _
    · simp at h

lemma offers_abortRoot (hoffer : (abortRoot input).Offers Seen Read txn) : RootTxn Seen txn := by
  simp only [abortRoot, offers_bind, offers_read, false_or] at hoffer
  obtain ⟨entity, _, h⟩ := hoffer
  split at h
  · simp only [offers_bind, offers_lift, false_or, offers_forget, offers_commitOrReplay] at h
    obtain ⟨_, _, _, _, _, _, rfl⟩ := h
    exact .abortion _ _ _
  · simp at h

lemma offers_deactivateRoot (hoffer : (deactivateRoot input).Offers Seen Read txn) :
    RootTxn Seen txn := by
  simp only [deactivateRoot, offers_bind, offers_read, false_or] at hoffer
  obtain ⟨entity, _, h⟩ := hoffer
  split at h
  · simp only [offers_bind, offers_lift, offers_read, false_or] at h
    obtain ⟨_, _, _, _, _, _, held, _, h⟩ := h
    split at h
    · simp only [offers_bind, offers_lift, false_or, offers_forget, offers_commitOrReplay] at h
      obtain ⟨_, _, rfl⟩ := h
      exact .deactivation _ _ _
    · simp at h
  · simp at h

lemma offers_acquireRoot (hoffer : (acquireRoot input).Offers Seen Read txn) :
    RootTxn Seen txn := by
  simp only [acquireRoot, offers_bind, offers_read, returns_read, false_or] at hoffer
  obtain ⟨entity, ⟨early, her, hrt⟩, hr⟩ := hoffer
  split at hr
  next root =>
    simp only [offers_bind, offers_lift, offers_read, returns_read, false_or] at hr
    obtain ⟨_, _, held, ⟨late, hlt, hhm⟩, hr⟩ := hr
    split at hr
    next home =>
      simp only [offers_bind, offers_lift, offers_readVersioned,
        offers_commitOrReplay, false_or] at hr
      obtain ⟨_, _, _, _, ⟨revision, rights⟩, _, htx | hnn⟩ := hr
      · exact htx ▸ .acquisition her hlt hrt hhm
      · simp at hnn
    · simp at hr
  · simp at hr

lemma offers_recoverRoot (hoffer : (recoverRoot input).Offers Seen Read txn) :
    RootTxn Seen txn := by
  simp only [recoverRoot, offers_bind, offers_read, returns_read, false_or] at hoffer
  obtain ⟨entity, ⟨early, her, hrt⟩, hr⟩ := hoffer
  split at hr
  next root =>
    simp only [offers_bind, offers_lift, offers_read, returns_read,
      offers_commitOrReplay, false_or] at hr
    obtain ⟨_, _, previous, ⟨late, hlt, rfl⟩, htx | hnn⟩ := hr
    · exact htx ▸ .recovery her hlt hrt
    · simp at hnn
  · simp at hr

end Offers

/-! ## The operations -/

/-- The operations that change roots, reservations and grants. -/
inductive RootOperation where
  | reserve (loadBalancing : Bool) (input : ReserveRootInput)
  | activate (input : ActivateRootInput)
  | abort (input : AbortRootInput)
  | deactivate (input : DeactivateRootInput)
  | acquire (input : AcquireRootInput)
  | recover (input : RecoverRootInput)

section Operations

variable [Hash]

def RootOperation.program : RootOperation → Service Unit
  | .reserve loadBalancing input => forget (reserveRoot loadBalancing input)
  | .activate input => forget (activateRoot input)
  | .abort input => abortRoot input
  | .deactivate input => deactivateRoot input
  | .acquire input => forget (acquireRoot input)
  | .recover input => forget (recoverRoot input)

def StartsRoot (program : Service Unit) : Prop :=
  ∃ operation : RootOperation, program = operation.program

lemma RootOperation.rootTxn {Seen Read} {operation : RootOperation}
    (hoffer : operation.program.Offers Seen Read txn) : RootTxn Seen txn := by
  cases operation with
  | reserve loadBalancing input =>
    exact offers_reserveRoot (offers_forget.mp hoffer)
  | activate input => exact offers_activateRoot (offers_forget.mp hoffer)
  | abort input => exact offers_abortRoot hoffer
  | deactivate input => exact offers_deactivateRoot hoffer
  | acquire input => exact offers_acquireRoot (offers_forget.mp hoffer)
  | recover input => exact offers_recoverRoot (offers_forget.mp hoffer)

end Operations

lemma stored_of_rootEpochEquals (hcom : Commits state txn next)
    (hcond : .rootEpochEquals rootId rootEpoch ∈ txn.conditions) :
    ∃ root : RootRecord, state.entity? (.root rootId) = some (.root root) ∧
      root.rootEpoch = rootEpoch := by
  obtain ⟨_, hm⟩ := hcom.matched _ hcond
  simp only [conditionMatches] at hm
  split at hm
  next root hrt =>
    exact ⟨root, hrt, of_decide_eq_true hm⟩
  · cases hm

/-! ## Maintenance -/

/-- `obsolete_root_grant`: no current home or holder needs the grant. -/
def obsoleteRootGrant (state : State) (grant : RootAccessGrant) (now : ℕ) : Bool :=
  match state.entity? (.root grant.rootId) with
  | some (.root root) =>
    if root.rootEpoch ≠ grant.rootEpoch ∨ root.homeNodeId ≠ grant.homeNodeId ∨
        root.homeSessionId ≠ grant.homeSessionId then
      true
    else if root.homeNodeId = grant.holderNodeId ∧ root.homeSessionId = grant.holderSessionId then
      false
    else
      (match state.entity? (.currentNodeSession grant.holderNodeId) with
        | some (.nodeSession current) =>
          decide (current.sessionId ≠ grant.holderSessionId) || !current.isLiveAtUnixMs now
        | _ => false) || match state.entity? (homeGrantKey root) with
        | some (.rootGrant home) =>
          decide (home.rootEpoch = root.rootEpoch) &&
            decide (home.homeSessionId = root.homeSessionId) &&
            decide (home.accessGeneration ≠ grant.accessGeneration)
        | _ => false
  | _ => true

/-- What everything else may do to the records of the authority: maintenance
captures a missing floor as it is and deletes obsolete grants, registrations and
the other services leave these keys alone. -/
structure SparesRoots (state next : State) : Prop where
  root_eq : ∀ rootId, next.entity? (.root rootId) = state.entity? (.root rootId)
  reservation_eq : ∀ rootId, next.entity? (.rootReservation rootId) =
    state.entity? (.rootReservation rootId)
  floor : next.entity? .rootEpochWatermark = state.entity? .rootEpochWatermark ∨
    state.entity? .rootEpochWatermark = none ∧
      next.entity? .rootEpochWatermark = some (.rootEpochWatermark state.rootEpochWatermark)
  grant : ∀ rootId node session,
    next.entity? (.rootGrant rootId node session) = state.entity? (.rootGrant rootId node session) ∨
    next.entity? (.rootGrant rootId node session) = none ∧
      ∃ grant time, obsoleteRootGrant state grant time = true ∧
        state.entity? (.rootGrant rootId node session) = some (.rootGrant grant)

end AgentDx.Roots
