import AgentDx.Lib.Run
import AgentDx.Locks.Bytes

/-!
# A lock table and the threads that wait on it

Calls arrive at a table in any order, and a thread that waits on the condition
variable resumes at any time, signalled or not.  A step of the system is one
critical section of the table's mutex.  For each operation the module says once
what it can do; the invariants of the table are derived from that.
-/

namespace AgentDx.Locks

open Std Segments Transition

/-- A thread inside its wait, and whether it was notified since it last looked
at the table. -/
structure WaitingThread where
  request : LockRequest
  waiter : LockWaiterId
  signalled : Bool := false
  deriving DecidableEq

structure World where
  table : LockTableState := {}
  threads : List WaitingThread := []

/-- A critical section with what it returned; `none` is a thread that waits. -/
inductive Event where
  | setlk (request : LockRequest) (result : Except LockError Unit)
  | attempt (request : LockRequest) (waiter : LockWaiterId)
      (result : BlockingResult)
  | resume (request : LockRequest) (waiter : LockWaiterId)
      (result : BlockingResult)
  | cancel (waiter : LockWaiterId)
      (result : Except LockError LockWaiterOutcome)
  | acknowledge (waiter : LockWaiterId) (result : Option LockWaiterOutcome)
  | releasePosix (owner : FileLockOwner)
  | releaseFlock (owner : FileLockOwner)
  | releaseSession (session : String)
  | invalidate

def WaitingThread.notify (notified : Bool) (thread : WaitingThread) : WaitingThread :=
  { thread with signalled := thread.signalled || notified }

/-- The threads a reply leaves waiting, given those that waited already. -/
def threadsAfter (reply : Reply BlockingResult) (request : LockRequest)
    (waiter : LockWaiterId) (threads : List WaitingThread) : List WaitingThread :=
  match reply.result with
  | none => ⟨request, waiter, false⟩ :: threads.map (.notify reply.notified)
  | some _ => threads.map (.notify reply.notified)

def World.leave {R : Type} (world : World) (reply : Reply R) : World :=
  ⟨reply.state, world.threads.map (.notify reply.notified)⟩

/-- What a blocking request leaves when it returns or first waits. -/
def World.attempt (limits : LockTableLimits) (world : World)
    (request : LockRequest) (waiter : LockWaiterId) : World :=
  ⟨(setlkBlocking limits world.table request waiter).state,
    threadsAfter (setlkBlocking limits world.table request waiter) request waiter world.threads⟩

inductive Step (limits : LockTableLimits) : World → Event → World → Prop where
  | setlk (world request) : Step limits world
        (.setlk request (setlkNonblocking limits world.table request).result)
        (world.leave (setlkNonblocking limits world.table request))
  | attempt (world request waiter) : Step limits world
        (.attempt request waiter (setlkBlocking limits world.table request waiter).result)
        (world.attempt limits request waiter)
  | resume (table before after thread) : Step limits ⟨table, before ++ thread :: after⟩
        (.resume thread.request thread.waiter
          (resumeWaiter limits table thread.request thread.waiter).result)
        ⟨(resumeWaiter limits table thread.request thread.waiter).state,
          threadsAfter (resumeWaiter limits table thread.request thread.waiter)
            thread.request thread.waiter (before ++ after)⟩
  | cancel (world waiter) : Step limits world
        (.cancel waiter (cancelWaiterWithOutcome limits world.table waiter).result)
        (world.leave (cancelWaiterWithOutcome limits world.table waiter))
  | acknowledge (world waiter) : Step limits world
        (.acknowledge waiter (acknowledgeWaiter world.table waiter).result)
        (world.leave (acknowledgeWaiter world.table waiter))
  | releasePosix (world owner) :
      Step limits world (.releasePosix owner) (world.leave (releasePosixOwner world.table owner))
  | releaseFlock (world owner) :
      Step limits world (.releaseFlock owner) (world.leave (releaseFlockOwner world.table owner))
  | releaseSession (world session) : Step limits world (.releaseSession session)
        (world.leave (releaseSession limits world.table session))
  | invalidate (world) : Step limits world .invalidate (world.leave (invalidate world.table))

/-! ## What each operation can do -/

variable {limits : LockTableLimits} {state applied : LockTableState}
  {request : LockRequest} {waiter : LockWaiterId}

lemma validateRange_ok : validateRange request.range = .ok () ↔ request.range.Valid := by
  unfold validateRange
  split
  next hv =>
    exact iff_of_true rfl (isValid_iff.mp hv)
  next hin =>
    exact iff_of_false (by simp) (fun hv => hin (isValid_iff.mpr hv))

/-- A request that was applied. -/
structure Applies (limits : LockTableLimits) (state : LockTableState)
    (request : LockRequest) (applied : LockTableState) : Prop where
  room : (candidate state request).1.length ≤ limits.maxLocks
  result : applied = { state with
    locks := (candidate state request).1
    nextSeq := (candidate state request).2 }

lemma applyLock_ok : applyLock limits state request = .ok applied ↔
    Applies limits state request applied := by
  unfold applyLock
  split
  next hfl =>
    exact iff_of_false (by simp) (fun hap => hfl.not_ge hap.room)
  next hrm =>
    rw [Except.ok.injEq]
    exact ⟨fun heq => ⟨Nat.not_lt.mp hrm, heq.symm⟩, fun hap => hap.result.symm⟩

lemma applyLock_error (happ : applyLock limits state request = .error error) :
    error = .capacity := by
  unfold applyLock at happ
  split at happ <;> cases happ
  rfl

/-- The table takes new locks of this session. -/
def Admits (state : LockTableState) (session : String) : Prop :=
  session ∉ state.closedSessions ∧ state.closedSessionAdmissionClosed = false

inductive SetlkCase (limits : LockTableLimits) (state : LockTableState)
    (request : LockRequest) : Reply (Except LockError Unit) → Prop where
  | refused (error) : SetlkCase limits state request (refuse state error)
  | applied (after) (range : request.range.Valid) (live : state.invalidated = false)
      (admitted : request.lockType = .unlock ∨ Admits state request.owner.ingressSessionId)
      (unopposed : Unopposed state.locks request) (applies : Applies limits state request after) :
      SetlkCase limits state request ⟨after, .ok (), true⟩

lemma setlkNonblocking_cases : SetlkCase limits state request
    (setlkNonblocking limits state request) := by
  unfold setlkNonblocking
  split
  · exact .refused _
  rename_i hrg
  split
  · exact .refused _
  rename_i hlv
  split
  · exact .refused _
  rename_i hss
  split
  · exact .refused _
  rename_i had
  split
  · exact .refused _
  rename_i hcn
  split
  · exact .refused _
  rename_i after hap
  refine .applied after (validateRange_ok.mp hrg) (by simpa using hlv) ?_ ?_ (applyLock_ok.mp hap)
  · by_cases hun : request.lockType = .unlock
    · exact .inl hun
    · exact .inr ⟨by simpa [hun] using hss, by simpa [hun] using had⟩
  · by_cases hun : request.lockType = .unlock
    · exact .inl hun
    · exact .inr (by simpa [hun] using hcn)

/-- The table remembers something that keeps the waiter out for good. -/
def Fenced (state : LockTableState) (waiter : LockWaiterId) : Prop :=
  state.invalidated = true ∨ waiter ∈ state.waiterOutcomes ∨ waiter ∈ state.retiredWaiters ∨
    waiter.ingressSessionId ∈ state.closedSessions ∨ state.closedSessionAdmissionClosed = true

/-- What a blocking request has passed when its loop starts. -/
structure Admitted (state : LockTableState) (request : LockRequest)
    (waiter : LockWaiterId) : Prop where
  range : request.range.Valid
  live : state.invalidated = false
  ownerSession : request.lockType = .unlock ∨ Admits state request.owner.ingressSessionId
  waiterSession : request.lockType = .unlock ∨ Admits state waiter.ingressSessionId
  noOutcome : waiter ∉ state.waiterOutcomes
  notRetired : waiter ∉ state.retiredWaiters

lemma admitBlocking_ok : admitBlocking state request waiter = .ok () ↔
    Admitted state request waiter := by
  constructor
  · intro hps
    unfold admitBlocking at hps
    split at hps
    · cases hps
    rename_i hrg
    split at hps
    · cases hps
    rename_i hlv
    split at hps
    · cases hps
    rename_i hss
    split at hps
    · cases hps
    rename_i had
    split at hps
    · cases hps
    · cases hps
    · cases hps
    rename_i hot
    split at hps
    · cases hps
    rename_i hrt
    rw [Option.map_eq_none_iff, getElem?_eq_none_iff] at hot
    refine ⟨validateRange_ok.mp hrg, by simpa using hlv, ?_, ?_, hot, hrt⟩
    · by_cases hun : request.lockType = .unlock
      · exact .inl hun
      · simp only [ne_eq, hun, not_false_eq_true, true_and, not_or, Bool.not_eq_true] at hss had
        exact .inr ⟨hss.1, had⟩
    · by_cases hun : request.lockType = .unlock
      · exact .inl hun
      · simp only [ne_eq, hun, not_false_eq_true, true_and, not_or, Bool.not_eq_true] at hss had
        exact .inr ⟨hss.2, had⟩
  · rintro ⟨hrg, hlv, how, hwt, hot, hrt⟩
    have hnn : state.waiterOutcomes[waiter]? = none := by
      rwa [getElem?_eq_none_iff]
    have hss : ¬ (request.lockType ≠ .unlock ∧
        (request.owner.ingressSessionId ∈ state.closedSessions ∨
          waiter.ingressSessionId ∈ state.closedSessions)) := by
      rintro ⟨hlk, hcl | hcl⟩
      · exact (how.resolve_left hlk).1 hcl
      · exact (hwt.resolve_left hlk).1 hcl
    have had : ¬ (request.lockType ≠ .unlock ∧ state.closedSessionAdmissionClosed = true) := by
      rintro ⟨hlk, hcl⟩
      rw [(how.resolve_left hlk).2] at hcl
      cases hcl
    unfold admitBlocking
    rw [validateRange_ok.mpr hrg]
    simp only [hlv, Bool.false_eq_true, if_false, hnn, Option.map_none]
    rw [if_neg hss, if_neg had, if_neg hrt]

/-- The table after a grant: the request applied and the grant recorded. -/
def granted (applied : LockTableState) (request : LockRequest)
    (waiter : LockWaiterId) : LockTableState :=
  { applied with
    waiterOutcomes := applied.waiterOutcomes.insert waiter
      ⟨.granted, some request.owner, some request.kind⟩ }

/-- The table with a new entry for a request that has to wait. -/
def registered (state : LockTableState) (request : LockRequest)
    (waiter : LockWaiterId) : LockTableState :=
  { state with
    waiters := state.waiters.insert waiter
      ⟨request.owner, request.kind, blockingOwners state.locks request⟩ }

/-- The table with the entry of a waiter brought up to date. -/
def refreshed (state : LockTableState) (request : LockRequest)
    (waiter : LockWaiterId) : LockTableState :=
  { state with
    waiters := state.waiters.alter waiter (Option.map fun waiting =>
      { waiting with blockers := blockingOwners state.locks request }) }

inductive GrantCase (limits : LockTableLimits) (state : LockTableState)
    (request : LockRequest) (waiter : LockWaiterId) : Reply BlockingResult → Prop where
  | refused (error) (reason : error ≠ .deadlock) :
      GrantCase limits state request waiter (returns state error)
  | applied (after) (applies : Applies limits state request after) :
      GrantCase limits state request waiter ⟨granted after request waiter, some (.ok ()), true⟩

lemma grantWaiter_cases : GrantCase limits state request waiter
    (grantWaiter limits state request waiter) := by
  unfold grantWaiter
  split
  next error hcp =>
    refine .refused error ?_
    unfold ensureWaiterOutcomeCapacity at hcp
    split at hcp
    · cases hcp
      simp
    · cases hcp
  · split
    next error hcp =>
      exact .refused error (by simp [applyLock_error hcp])
    next after hap =>
      exact .applied after (applyLock_ok.mp hap)

lemma unopposed_iff : Unopposed state.locks request ↔
    request.lockType = .unlock ∨ (firstConflict state.locks request).isNone = true := by
  rw [Option.isNone_iff_eq_none]
  rfl

inductive BlockingCase (limits : LockTableLimits) (state : LockTableState)
    (request : LockRequest) (waiter : LockWaiterId) : Reply BlockingResult → Prop where
  | refused (error) : BlockingCase limits state request waiter (returns state error)
  | granted (after) (admitted : Admitted state request waiter) (fresh : waiter ∉ state.waiters)
      (unopposed : Unopposed state.locks request) (applies : Applies limits state request after) :
      BlockingCase limits state request waiter ⟨granted after request waiter, some (.ok ()), true⟩
  | waits (admitted : Admitted state request waiter)
      (fresh : waiter ∉ state.waiters)
      (opposed : ¬ Unopposed state.locks request)
      (safe : wouldDeadlock state.waiters request.owner
        (blockingOwners state.locks request) = false) :
      BlockingCase limits state request waiter ⟨registered state request waiter, none, false⟩

lemma setlkBlocking_cases : BlockingCase limits state request waiter
    (setlkBlocking limits state request waiter) := by
  unfold setlkBlocking
  split
  · exact .refused _
  rename_i hps
  rw [admitBlocking_ok] at hps
  unfold registerWaiter
  split
  · exact .refused _
  rename_i hf
  split
  next hun =>
    rw [← unopposed_iff] at hun
    have hgt := @grantWaiter_cases limits state request waiter
    generalize grantWaiter limits state request waiter = reply at hgt ⊢
    cases hgt with
    | refused error => exact .refused error
    | applied after hap => exact .granted after hps hf hun hap
  rename_i hop
  rw [← unopposed_iff] at hop
  split
  · exact .refused _
  rename_i hsf
  split
  · exact .refused _
  · exact .waits hps hf hop (by simpa using hsf)

/-- What a thread has checked when it goes on after a wait. -/
structure Resumes (state : LockTableState) (request : LockRequest)
    (waiter : LockWaiterId) : Prop where
  live : state.invalidated = false
  ownerSession : request.owner.ingressSessionId ∉ state.closedSessions
  waiterSession : waiter.ingressSessionId ∉ state.closedSessions
  entry : waiter ∈ state.waiters

lemma isInterrupted_eq_false (hback : isInterrupted state request waiter = false) :
    Resumes state request waiter := by
  simp only [isInterrupted, Bool.or_eq_false_iff, Bool.not_eq_false'] at hback
  obtain ⟨⟨⟨⟨hlv, _⟩, how⟩, hwt⟩, he⟩ := hback
  refine ⟨hlv, ?_, ?_, he⟩
  · rw [← ExtTreeSet.contains_iff_mem, how]
    simp
  · rw [← ExtTreeSet.contains_iff_mem, hwt]
    simp

inductive ResumeCase (limits : LockTableLimits) (state : LockTableState)
    (request : LockRequest) (waiter : LockWaiterId) : Reply BlockingResult → Prop where
  | refused (error) :
      ResumeCase limits state request waiter (returns (unregister state waiter) error)
  | granted (after) (resumes : Resumes state request waiter)
      (unopposed : Unopposed state.locks request)
      (applies : Applies limits (unregister state waiter) request after) :
      ResumeCase limits state request waiter ⟨granted after request waiter, some (.ok ()), true⟩
  | waits (resumes : Resumes state request waiter)
      (opposed : ¬ Unopposed state.locks request)
      (safe : wouldDeadlock state.waiters request.owner
        (blockingOwners state.locks request) = false) :
      ResumeCase limits state request waiter ⟨refreshed state request waiter, none, false⟩

lemma resumeWaiter_cases : ResumeCase limits state request waiter
    (resumeWaiter limits state request waiter) := by
  unfold resumeWaiter
  split
  · exact .refused _
  rename_i hrs
  have hrs := isInterrupted_eq_false (by simpa using hrs)
  unfold recheckWaiter
  split
  next hun =>
    rw [← unopposed_iff] at hun
    have hgt := @grantWaiter_cases limits (unregister state waiter) request waiter
    generalize grantWaiter limits (unregister state waiter) request waiter = reply at hgt ⊢
    cases hgt with
    | refused error => exact .refused error
    | applied after hap => exact .granted after hrs hun hap
  rename_i hop
  rw [← unopposed_iff] at hop
  split
  · exact .refused _
  next hsf =>
    exact .waits hrs hop (by simpa using hsf)

/-- The table with a cancellation recorded. -/
def cancelled (state : LockTableState) (waiter : LockWaiterId)
    (waiting : Option WaitingLock) : LockTableState :=
  { state with
    waiterOutcomes := state.waiterOutcomes.insert waiter
      ⟨.cancelled, waiting.map WaitingLock.owner, waiting.map WaitingLock.kind⟩ }

inductive CancelCase (state : LockTableState) (waiter : LockWaiterId) :
    Reply (Except LockError LockWaiterOutcome) → Prop where
  | refused (error) : CancelCase state waiter (refuse state error)
  | known (fenced : Fenced state waiter) (idle : state.invalidated = true ∨ waiter ∉ state.waiters)
      (outcome notified) : CancelCase state waiter ⟨state, .ok outcome, notified⟩
  | waiting (waiting) (live : state.invalidated = false)
      (entry : state.waiters[waiter]? = some waiting) : CancelCase state waiter
        ⟨cancelled (unregister state waiter) waiter (some waiting), .ok .cancelled, true⟩
  | early (live : state.invalidated = false) (idle : waiter ∉ state.waiters) :
      CancelCase state waiter ⟨cancelled state waiter none, .ok .unknown, true⟩

lemma cancelWaiterWithOutcome_cases : CancelCase state waiter
    (cancelWaiterWithOutcome limits state waiter) := by
  unfold cancelWaiterWithOutcome
  split
  next hiv =>
    exact .known (.inl hiv) (.inl hiv) _ _
  rename_i hlv
  have hlv : state.invalidated = false := by simpa using hlv
  split
  next waiting he =>
    split
    · exact .refused _
    next hcp =>
      have hag : ensureWaiterOutcomeCapacity limits (unregister state waiter) waiter = .ok () := hcp
      rw [rememberWaiterOutcome, hag]
      exact .waiting waiting hlv he
  next he =>
    rw [getElem?_eq_none_iff] at he
    split
    next stored hst =>
      have hin : waiter ∈ state.waiterOutcomes := by
        rw [ExtTreeMap.mem_iff_isSome_getElem?, hst]
        rfl
      exact .known (.inr (.inl hin)) (.inr he) _ _
    · split
      next hrt =>
        exact .known (.inr (.inr (.inl hrt))) (.inr he) _ _
      · split
        next hcl =>
          exact .known (.inr (.inr (.inr hcl))) (.inr he) _ _
        · unfold rememberWaiterOutcome
          split
          next hrm =>
            split at hrm
            · cases hrm
              exact .refused _
            · cases hrm
          next hrm =>
            split at hrm
            · cases hrm
            · cases hrm
              exact .early hlv he

/-- The table after an acknowledgement. -/
def retired (state : LockTableState) (waiter : LockWaiterId) : LockTableState :=
  { state with
    waiterOutcomes := state.waiterOutcomes.erase waiter
    retiredWaiters := state.retiredWaiters.insert waiter }

inductive AcknowledgeCase (state : LockTableState) (waiter : LockWaiterId) :
    Reply (Option LockWaiterOutcome) → Prop where
  | unknown : AcknowledgeCase state waiter ⟨state, none, false⟩
  | retired (outcome) (known : waiter ∈ state.waiterOutcomes) :
      AcknowledgeCase state waiter ⟨retired state waiter, some outcome, false⟩

lemma acknowledgeWaiter_cases : AcknowledgeCase state waiter (acknowledgeWaiter state waiter) := by
  unfold acknowledgeWaiter
  split
  · exact .unknown
  next stored h =>
    refine .retired _ ?_
    rw [ExtTreeMap.mem_iff_isSome_getElem?, h]
    rfl

/-! ## What a step can do -/

/-- The step returned an error. -/
def Event.Fails : Event → Prop
  | .setlk _ (.error _) => True
  | .attempt _ _ (some (.error _)) => True
  | .resume _ _ (some (.error _)) => True
  | .cancel _ (.error _) => True
  | _ => False

/-- The release of one kind of locks of an owner. -/
def Event.release : FileLockKind → FileLockOwner → Event
  | .posix, owner => .releasePosix owner
  | .flock, owner => .releaseFlock owner

/-- A step by its outcome. -/
inductive Effect (limits : LockTableLimits) : World → Event → World → Prop where
  | refused {world} (event : Event) (fails : event.Fails) : Effect limits world event world
  | applied {world : World} (request : LockRequest) (after) (range : request.range.Valid)
      (live : world.table.invalidated = false)
      (admitted : request.lockType = .unlock ∨ Admits world.table request.owner.ingressSessionId)
      (unopposed : Unopposed world.table.locks request)
      (applies : Applies limits world.table request after) :
      Effect limits world (.setlk request (.ok ())) ⟨after, world.threads.map (.notify true)⟩
  | granted {world : World} (request waiter after) (admitted : Admitted world.table request waiter)
      (fresh : waiter ∉ world.table.waiters) (unopposed : Unopposed world.table.locks request)
      (applies : Applies limits world.table request after) :
      Effect limits world (.attempt request waiter (some (.ok ())))
        ⟨granted after request waiter, world.threads.map (.notify true)⟩
  | waits {world : World} (request waiter) (admitted : Admitted world.table request waiter)
      (fresh : waiter ∉ world.table.waiters) (opposed : ¬ Unopposed world.table.locks request)
      (safe : wouldDeadlock world.table.waiters request.owner
        (blockingOwners world.table.locks request) = false) :
      Effect limits world (.attempt request waiter none)
        ⟨registered world.table request waiter, ⟨request, waiter, false⟩ :: world.threads⟩
  | stopped (table before after thread error) : Effect limits ⟨table, before ++ thread :: after⟩
        (.resume thread.request thread.waiter (some (.error error)))
        ⟨unregister table thread.waiter, before ++ after⟩
  | resumed (table applied before after) (thread : WaitingThread)
      (resumes : Resumes table thread.request thread.waiter)
      (unopposed : Unopposed table.locks thread.request)
      (applies : Applies limits (unregister table thread.waiter) thread.request applied) :
      Effect limits ⟨table, before ++ thread :: after⟩
        (.resume thread.request thread.waiter (some (.ok ())))
        ⟨Locks.granted applied thread.request thread.waiter, (before ++ after).map (.notify true)⟩
  | waitsAgain (table before after) (thread : WaitingThread)
      (resumes : Resumes table thread.request thread.waiter)
      (opposed : ¬ Unopposed table.locks thread.request)
      (safe : wouldDeadlock table.waiters thread.request.owner
        (blockingOwners table.locks thread.request) = false) :
      Effect limits ⟨table, before ++ thread :: after⟩
        (.resume thread.request thread.waiter none)
        ⟨refreshed table thread.request thread.waiter,
          ⟨thread.request, thread.waiter, false⟩ :: (before ++ after)⟩
  | known {world : World} (waiter) (fenced : Fenced world.table waiter)
      (idle : world.table.invalidated = true ∨ waiter ∉ world.table.waiters) (outcome notified) :
      Effect limits world (.cancel waiter (.ok outcome))
        ⟨world.table, world.threads.map (.notify notified)⟩
  | cancelled {world : World} (waiter waiting) (live : world.table.invalidated = false)
      (entry : world.table.waiters[waiter]? = some waiting) :
      Effect limits world (.cancel waiter (.ok .cancelled))
        ⟨cancelled (unregister world.table waiter) waiter (some waiting),
          world.threads.map (.notify true)⟩
  | cancelledEarly {world : World} (waiter) (live : world.table.invalidated = false)
      (idle : waiter ∉ world.table.waiters) : Effect limits world (.cancel waiter (.ok .unknown))
        ⟨Locks.cancelled world.table waiter none, world.threads.map (.notify true)⟩
  | unacknowledged {world} (waiter) : Effect limits world (.acknowledge waiter none) world
  | acknowledged {world : World} (waiter outcome) (known : waiter ∈ world.table.waiterOutcomes) :
      Effect limits world (.acknowledge waiter (some outcome))
        ⟨retired world.table waiter, world.threads⟩
  | released {world} (kind owner) :
      Effect limits world (.release kind owner) (world.leave (releaseOwner kind world.table owner))
  | ignored {world : World} (session) (invalidated : world.table.invalidated = true) :
      Effect limits world (.releaseSession session) world
  | dropped {world : World} (session) (live : world.table.invalidated = false) :
      Effect limits world (.releaseSession session)
        ⟨closeSession limits (dropSession world.table session) session,
          world.threads.map (.notify (releaseSession limits world.table session).notified)⟩
  | invalidated {world} : Effect limits world .invalidate
        ⟨(invalidate world.table).state, world.threads.map (.notify true)⟩

@[simp]
lemma WaitingThread.notify_false (thread : WaitingThread) : thread.notify false = thread := by
  simp [notify]

@[simp]
lemma map_notify_false (threads : List WaitingThread) : threads.map (.notify false) = threads := by
  rw [List.map_congr_left fun thread _ => thread.notify_false, List.map_id']

lemma Step.effect (hstep : Step limits world event after) : Effect limits world event after := by
  cases hstep with
  | setlk _ request =>
    have hcs := @setlkNonblocking_cases limits world.table request
    unfold World.leave
    generalize setlkNonblocking limits world.table request = reply at hcs ⊢
    cases hcs with
    | refused error =>
      have hrf := @Effect.refused limits world (.setlk request (.error error)) trivial
      simpa [refuse] using hrf
    | applied after hrg hlv had hun hap =>
      exact .applied request after hrg hlv had hun hap
  | attempt _ request waiter =>
    have hcs := @setlkBlocking_cases limits world.table request waiter
    unfold World.attempt
    generalize setlkBlocking limits world.table request waiter = reply at hcs ⊢
    cases hcs with
    | refused error =>
      have hrf := @Effect.refused limits world
        (.attempt request waiter (some (.error error))) trivial
      simpa [returns, threadsAfter] using hrf
    | granted after had hf hun hap =>
      exact .granted request waiter after had hf hun hap
    | waits had hf hop hsf =>
      simpa [threadsAfter] using Effect.waits request waiter had hf hop hsf
  | resume table before after thread =>
    have hcs := @resumeWaiter_cases limits table thread.request thread.waiter
    generalize resumeWaiter limits table thread.request thread.waiter = reply at hcs ⊢
    cases hcs with
    | refused error =>
      simpa [returns, threadsAfter] using Effect.stopped table before after thread error
    | granted applied hrs hun hap =>
      exact .resumed table applied before after thread hrs hun hap
    | waits hrs hop hsf =>
      simpa [threadsAfter] using Effect.waitsAgain table before after thread hrs hop hsf
  | cancel _ waiter =>
    have hcs := @cancelWaiterWithOutcome_cases limits world.table waiter
    unfold World.leave
    generalize cancelWaiterWithOutcome limits world.table waiter = reply at hcs ⊢
    cases hcs with
    | refused error =>
      have hrf := @Effect.refused limits world (.cancel waiter (.error error)) trivial
      simpa [refuse] using hrf
    | known hfn hid outcome notified =>
      exact .known waiter hfn hid outcome notified
    | waiting waiting hlv he =>
      exact .cancelled waiter waiting hlv he
    | early hlv hid => exact .cancelledEarly waiter hlv hid
  | acknowledge _ waiter =>
    have hcs := @acknowledgeWaiter_cases world.table waiter
    unfold World.leave
    generalize acknowledgeWaiter world.table waiter = reply at hcs ⊢
    cases hcs with
    | unknown => simpa using Effect.unacknowledged waiter
    | retired outcome hkn =>
      simpa using Effect.acknowledged waiter outcome hkn
  | releasePosix _ owner => exact .released .posix owner
  | releaseFlock _ owner => exact .released .flock owner
  | releaseSession _ session =>
    by_cases hin : world.table.invalidated
    · simpa [World.leave, Locks.releaseSession, hin] using Effect.ignored session hin
    · have hdr := @Effect.dropped limits world session (by simpa using hin)
      simpa [World.leave, Locks.releaseSession, hin] using hdr
  | invalidate => exact .invalidated

/-! ## Requests for concrete runs -/

def sampleLimits : LockTableLimits := ⟨8, 4, 4⟩

def endOfFile : Offset := ⟨Word.size - 1, by decide⟩

def sampleOwner (session : String) : FileLockOwner := ⟨session, 1⟩

/-- A request of a session's first owner for some bytes. -/
def sampleRequest (session : String) (kind : FileLockKind)
    (lockType : FileLockType) (start stop : Offset) : LockRequest :=
  ⟨kind, sampleOwner session, 1, ⟨start, stop⟩, lockType⟩

end AgentDx.Locks
