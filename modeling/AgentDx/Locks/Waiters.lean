import AgentDx.Lib.OrderedMap
import AgentDx.Locks.Exclusion

/-!
# Fences for waiters and sessions

A table remembers a waiter that was granted, cancelled or acknowledged until its
session closes, and a closed session until the table is invalidated; where it
cannot remember one more session it admits none.  So a waiter whose request is
over never gets a lock again, and nothing of a released session comes back,
as long as callers use ids of the owner's own session and send no blocking
unlock for a session that the table turned away.
-/

namespace AgentDx.Locks

open Std Segments Transition OrderedMap Option ExtTreeMap

variable {limits : LockTableLimits} {state result : LockTableState}
  {request : LockRequest} {waiter : LockWaiterId} {world after : World}
  {event : Event}

/-! ## What the table remembers about waiters -/

structure WaiterRecords (state : LockTableState) : Prop where
  entries : ∀ {waiter : LockWaiterId} {waiting : WaitingLock},
    state.waiters[waiter]? = some waiting → waiting.owner.ingressSessionId = waiter.ingressSessionId
  owners : ∀ {waiter : LockWaiterId} {stored : StoredWaiterOutcome}
      {owner : FileLockOwner},
    state.waiterOutcomes[waiter]? = some stored → stored.owner = some owner →
      owner.ingressSessionId = waiter.ingressSessionId
  pending : ∀ {waiter : LockWaiterId}, waiter ∈ state.waiters →
    waiter ∉ state.waiterOutcomes ∧ waiter ∉ state.retiredWaiters ∧
      waiter.ingressSessionId ∉ state.closedSessions
  cleared : state.invalidated = true →
    state.locks = [] ∧ state.waiters = ∅ ∧ state.waiterOutcomes = ∅

lemma WaiterRecords.initial : WaiterRecords {} where
  entries := by simp
  owners := by simp
  pending := by simp
  cleared := by simp

lemma WaiterRecords.applied (hstate : WaiterRecords state) (hlive : state.invalidated = false)
    (happs : Applies limits state request result) : WaiterRecords result := by
  obtain ⟨_, rfl⟩ := happs
  refine ⟨hstate.entries, hstate.owners, hstate.pending, fun h => ?_⟩
  simp [hlive] at h

lemma WaiterRecords.granted (hstate : WaiterRecords state)
    (hlive : state.invalidated = false) (hidle : waiter ∉ state.waiters)
    (hsess : request.owner.ingressSessionId = waiter.ingressSessionId) :
    WaiterRecords (granted state request waiter) where
  entries := hstate.entries
  owners := by
    intro other stored owner hst how
    rcases getElem?_insert_cases hst with ⟨rfl, rfl⟩ | hst
    · cases how
      exact hsess
    · exact hstate.owners hst how
  pending := by
    intro other ho
    obtain ⟨hot, hr⟩ := hstate.pending ho
    refine ⟨?_, hr⟩
    simp only [Locks.granted, mem_insert, Std.compare_eq_iff_eq, not_or]
    exact ⟨fun heq => hidle (heq ▸ ho), hot⟩
  cleared := by
    intro hin
    simp [Locks.granted, hlive] at hin

lemma WaiterRecords.unregister (hstate : WaiterRecords state) :
    WaiterRecords (unregister state waiter) where
  entries := fun he => hstate.entries (getElem?_of_erase he)
  owners := hstate.owners
  pending := fun ho => hstate.pending (mem_of_mem_erase ho)
  cleared := by
    intro hin
    obtain ⟨hlk, hwa, hot⟩ := hstate.cleared hin
    refine ⟨hlk, ?_, hot⟩
    simp [Locks.unregister, hwa]

lemma Admitted.not_fenced (hadm : Admitted state request waiter)
    (hpass : Admits state waiter.ingressSessionId) : ¬ Fenced state waiter := by
  rintro (hin | hot | hrt | hcl | hcl)
  · simp [hadm.live] at hin
  · exact hadm.noOutcome hot
  · exact hadm.notRetired hrt
  · exact hpass.1 hcl
  · simp [hpass.2] at hcl

lemma not_unlock_of_opposed (hopp : ¬ Unopposed state.locks request) : request.lockType ≠ .unlock :=
  fun h => hopp (.inl h)

lemma WaiterRecords.registered (hstate : WaiterRecords state)
    (hadm : Admitted state request waiter) (hpass : Admits state waiter.ingressSessionId)
    (hsess : request.owner.ingressSessionId = waiter.ingressSessionId) :
    WaiterRecords (registered state request waiter) where
  entries := by
    intro other waiting he
    rcases getElem?_insert_cases he with ⟨rfl, rfl⟩ | he
    · exact hsess
    · exact hstate.entries he
  owners := hstate.owners
  pending := by
    intro other ho
    simp only [Locks.registered, mem_insert, Std.compare_eq_iff_eq] at ho
    rcases ho with rfl | ho
    · exact ⟨hadm.noOutcome, hadm.notRetired, hpass.1⟩
    · exact hstate.pending ho
  cleared := by
    intro hin
    simp [Locks.registered, hadm.live] at hin

lemma refreshed_waiters (other) :
    (refreshed state request waiter).waiters[other]? = if waiter = other then
        state.waiters[waiter]?.map fun waiting =>
          { waiting with blockers := blockingOwners state.locks request }
      else state.waiters[other]? := by
  simp [refreshed, getElem?_alter]

lemma mem_refreshed : other ∈ (refreshed state request waiter).waiters ↔ other ∈ state.waiters := by
  rw [mem_iff_isSome_getElem?, mem_iff_isSome_getElem?, refreshed_waiters]
  split
  next heq =>
    simp [heq]
  · rfl

lemma WaiterRecords.refreshed (hstate : WaiterRecords state) (hlive : state.invalidated = false) :
    WaiterRecords (refreshed state request waiter) where
  entries := by
    intro other waiting he
    rw [refreshed_waiters] at he
    split at he
    next heq =>
      subst heq
      obtain ⟨old, hol, rfl⟩ := map_eq_some_iff.mp he
      exact @WaiterRecords.entries _ hstate _ old hol
    · exact hstate.entries he
  owners := hstate.owners
  pending := fun ho => hstate.pending (mem_refreshed.mp ho)
  cleared := by
    intro hin
    simp [Locks.refreshed, hlive] at hin

lemma WaiterRecords.cancelled (hstate : WaiterRecords state)
    (hlive : state.invalidated = false) (hidle : waiter ∉ state.waiters)
    (hsess : ∀ entry, waiting = some entry → entry.owner.ingressSessionId =
      waiter.ingressSessionId) :
    WaiterRecords (cancelled state waiter waiting) where
  entries := hstate.entries
  owners := by
    intro other stored owner hst how
    rcases getElem?_insert_cases hst with ⟨rfl, rfl⟩ | hst
    · obtain ⟨entry, he, rfl⟩ := map_eq_some_iff.mp how
      exact hsess entry he
    · exact hstate.owners hst how
  pending := by
    intro other ho
    obtain ⟨hot, hr⟩ := hstate.pending ho
    refine ⟨?_, hr⟩
    simp only [Locks.cancelled, mem_insert, Std.compare_eq_iff_eq, not_or]
    exact ⟨fun heq => hidle (heq ▸ ho), hot⟩
  cleared := by
    intro hin
    simp [Locks.cancelled, hlive] at hin

lemma WaiterRecords.retired (hstate : WaiterRecords state)
    (hknown : waiter ∈ state.waiterOutcomes) :
    WaiterRecords (retired state waiter) where
  entries := hstate.entries
  owners := fun hst => hstate.owners (getElem?_of_erase hst)
  pending := by
    intro other ho
    obtain ⟨hot, hrt, hcl⟩ := hstate.pending ho
    refine ⟨fun hin => hot (mem_of_mem_erase hin), ?_, hcl⟩
    simp only [Locks.retired, ExtTreeSet.mem_insert, Std.compare_eq_iff_eq, not_or]
    exact ⟨fun heq => hot (heq ▸ hknown), hrt⟩
  cleared := by
    intro hiv
    have hem := (hstate.cleared hiv).2.2
    simp [hem] at hknown

lemma retainOutcome_owner (owner kind stored) :
    (retainOutcome owner kind stored).owner = stored.owner := by
  unfold retainOutcome
  split <;> rfl

lemma WaiterRecords.releaseOwner (hstate : WaiterRecords state) (kind owner) :
    WaiterRecords (releaseOwner kind state owner).state where
  entries := hstate.entries
  owners := by
    intro other stored holder hst hhl
    simp only [Locks.releaseOwner, retainWaiterOutcomes, getElem?_map] at hst
    obtain ⟨old, hol, rfl⟩ := map_eq_some_iff.mp hst
    rw [retainOutcome_owner] at hhl
    exact hstate.owners hol hhl
  pending := by
    intro other ho
    obtain ⟨hot, hr⟩ := hstate.pending ho
    refine ⟨?_, hr⟩
    simpa [Locks.releaseOwner, retainWaiterOutcomes] using hot
  cleared := by
    intro hin
    obtain ⟨hlk, hwa, hou⟩ := hstate.cleared hin
    refine ⟨?_, hwa, ?_⟩
    · simp [Locks.releaseOwner, retainWaiterOutcomes, hlk]
    · simp [Locks.releaseOwner, retainWaiterOutcomes, hou]

/-! ## Closing a session -/

@[simp]
lemma closeSession_waiters (session) :
    (closeSession limits state session).waiters = state.waiters := by
  unfold closeSession
  split
  · rfl
  · split <;> rfl

@[simp]
lemma closeSession_waiterOutcomes (session) :
    (closeSession limits state session).waiterOutcomes = state.waiterOutcomes := by
  unfold closeSession
  split
  · rfl
  · split <;> rfl

@[simp]
lemma closeSession_retiredWaiters (session) :
    (closeSession limits state session).retiredWaiters = state.retiredWaiters := by
  unfold closeSession
  split
  · rfl
  · split <;> rfl

@[simp]
lemma closeSession_invalidated (session) :
    (closeSession limits state session).invalidated = state.invalidated := by
  unfold closeSession
  split
  · rfl
  · split <;> rfl

lemma mem_closeSession (hother : other ∈ (closeSession limits state session).closedSessions) :
    other = session ∨ other ∈ state.closedSessions := by
  unfold closeSession at hother
  split at hother
  · exact .inr hother
  · split at hother
    · exact .inr hother
    · rw [ExtTreeSet.mem_insert, Std.compare_eq_iff_eq] at hother
      exact hother.imp_left Eq.symm

/-- The table no longer takes locks of this session. -/
def TurnsAway (state : LockTableState) (session : String) : Prop :=
  session ∈ state.closedSessions ∨ state.closedSessionAdmissionClosed = true

lemma turnsAway_iff : TurnsAway state session ↔ ¬ Admits state session := by
  unfold TurnsAway Admits
  rw [not_and_or, not_not, Bool.not_eq_false]

lemma closeSession_turnsAway (session) : TurnsAway (closeSession limits state session) session := by
  unfold closeSession
  split
  next h =>
    exact .inl h
  · split
    · exact .inr rfl
    · exact .inl (by simp)

lemma TurnsAway.closeSession (haway : TurnsAway state session) (other) :
    TurnsAway (closeSession limits state other) session := by
  unfold Locks.closeSession
  split
  · exact haway
  · split
    · exact .inr rfl
    · exact haway.imp (fun h => by simp [h]) id

lemma dropSession_entry : (dropSession state session).waiters[waiter]? = some waiting ↔
      state.waiters[waiter]? = some waiting ∧ waiter.ingressSessionId ≠ session ∧
        waiting.owner.ingressSessionId ≠ session := by
  simp [dropSession, filter_eq_some_iff]

lemma dropSession_outcome : (dropSession state session).waiterOutcomes[waiter]? = some stored ↔
      state.waiterOutcomes[waiter]? = some stored ∧ waiter.ingressSessionId ≠ session := by
  simp [dropSession, filter_eq_some_iff]

lemma dropSession_retired : waiter ∈ (dropSession state session).retiredWaiters ↔
      waiter ∈ state.retiredWaiters ∧ waiter.ingressSessionId ≠ session := by
  simp [dropSession, ExtTreeSet.mem_filter]

lemma WaiterRecords.closeSession (hstate : WaiterRecords state)
    (hlive : state.invalidated = false) (session) :
    WaiterRecords (closeSession limits (dropSession state session) session) where
  entries := by
    intro other waiting he
    rw [closeSession_waiters, dropSession_entry] at he
    exact hstate.entries he.1
  owners := by
    intro other stored owner hst how
    rw [closeSession_waiterOutcomes, dropSession_outcome] at hst
    exact hstate.owners hst.1 how
  pending := by
    intro other ho
    rw [closeSession_waiters, mem_iff_isSome_getElem?, isSome_iff_exists] at ho
    obtain ⟨waiting, he⟩ := ho
    rw [dropSession_entry] at he
    have hin : other ∈ state.waiters := by
      simp [mem_iff_isSome_getElem?, he.1]
    obtain ⟨hot, hrt, hcl⟩ := hstate.pending hin
    refine ⟨?_, ?_, fun hm => ?_⟩
    · rw [closeSession_waiterOutcomes]
      exact fun hm => hot (mem_of_mem_filter hm)
    · rw [closeSession_retiredWaiters, dropSession_retired]
      exact fun hm => hrt hm.1
    · rcases mem_closeSession hm with heq | hm
      · exact he.2.1 heq
      · exact hcl hm
  cleared := by
    intro hiv
    rw [closeSession_invalidated] at hiv
    simp [dropSession, hlive] at hiv

lemma WaiterRecords.invalidate : WaiterRecords (invalidate state).state where
  entries := by simp [Locks.invalidate]
  owners := by simp [Locks.invalidate]
  pending := by simp [Locks.invalidate]
  cleared := by simp [Locks.invalidate]

/-! ## Over whole runs -/

/-- The waiter's id is of the session of the request's owner. -/
def Event.SessionsAgree : Event → Prop
  | .attempt request waiter _ =>
    request.owner.ingressSessionId = waiter.ingressSessionId
  | _ => True

structure WaitersInvariant (limits : LockTableLimits) (world : World) : Prop where
  locks : LocksInvariant limits world
  records : WaiterRecords world.table
  threads : ∀ thread ∈ world.threads,
    thread.request.owner.ingressSessionId = thread.waiter.ingressSessionId

lemma WaitersInvariant.initial : WaitersInvariant limits {} where
  locks := .initial
  records := .initial
  threads := by simp

lemma Admitted.admits (hadm : Admitted state request waiter) (hlock : request.lockType ≠ .unlock) :
    Admits state waiter.ingressSessionId :=
  hadm.waiterSession.resolve_left hlock

lemma not_mem_unregister : waiter ∉ (unregister state waiter).waiters := by
  simp [unregister]

lemma WaitersInvariant.recordsStep (hworld : WaitersInvariant limits world)
    (hact : Effect limits world event after) (hagree : event.SessionsAgree) :
    WaiterRecords after.table := by
  have hrc := hworld.records
  cases hact with
  | refused | unacknowledged | ignored | known => exact hrc
  | applied request result _ hlv _ _ hap =>
    exact hrc.applied hlv hap
  | granted request waiter result had hf _ hap =>
    have happ := hrc.applied had.live hap
    obtain ⟨_, rfl⟩ := hap
    exact happ.granted had.live hf hagree
  | waits request waiter had _ hop =>
    exact hrc.registered had (had.admits (not_unlock_of_opposed hop)) hagree
  | stopped => exact hrc.unregister
  | resumed table result earlier later thread hrs _ hap =>
    have happ := hrc.unregister.applied hrs.live hap
    obtain ⟨_, rfl⟩ := hap
    exact happ.granted hrs.live not_mem_unregister (hworld.threads thread (by simp))
  | waitsAgain table earlier later thread hrs =>
    exact hrc.refreshed hrs.live
  | cancelled waiter waiting hlv he =>
    refine hrc.unregister.cancelled hlv not_mem_unregister ?_
    rintro entry ⟨⟩
    exact hrc.entries he
  | cancelledEarly waiter hlv hid =>
    exact hrc.cancelled hlv hid (by simp)
  | acknowledged waiter outcome hkn => exact hrc.retired hkn
  | released kind owner => exact hrc.releaseOwner kind owner
  | dropped session hlv => exact hrc.closeSession hlv session
  | invalidated => exact .invalidate

lemma WaitersInvariant.step (hworld : WaitersInvariant limits world)
    (hact : Effect limits world event after) (hagree : event.SessionsAgree) :
    WaitersInvariant limits after where
  locks := hworld.locks.step hact
  records := hworld.recordsStep hact hagree
  threads := by
    intro thread hth
    rcases hact.threads hth with ⟨old, hol, hrq, hwt⟩ | ⟨_, rfl⟩
    · rw [hrq, hwt]
      exact hworld.threads old hol
    · exact hagree

/-! ## Waiters whose request is over -/

/-- The waiter does not wait and can never wait again. -/
def Spent (state : LockTableState) (waiter : LockWaiterId) : Prop :=
  waiter ∉ state.waiters ∧ Fenced state waiter

/-- The step granted a request of this waiter. -/
def Event.grants (waiter : LockWaiterId) : Event → Bool
  | .attempt _ granted (some (.ok ())) => granted = waiter
  | .resume _ granted (some (.ok ())) => granted = waiter
  | _ => false

/-- The step cancelled or acknowledged the waiter. -/
def Event.Ends (waiter : LockWaiterId) : Event → Prop
  | .cancel ended (.ok _) => ended = waiter
  | .acknowledge ended (some _) => ended = waiter
  | _ => False

lemma Fenced.grows (hsafe : Fenced state waiter)
    (hinv : state.invalidated = true → next.invalidated = true)
    (hout : waiter ∈ state.waiterOutcomes →
      waiter ∈ next.waiterOutcomes ∨ waiter ∈ next.retiredWaiters)
    (hret : waiter ∈ state.retiredWaiters → waiter ∈ next.retiredWaiters)
    (haway : TurnsAway state waiter.ingressSessionId → TurnsAway next waiter.ingressSessionId) :
        Fenced next waiter := by
  rcases hsafe with hsafe | hsafe | hsafe | hsafe
  · exact .inl (hinv hsafe)
  · rcases hout hsafe with h | h
    · exact .inr (.inl h)
    · exact .inr (.inr (.inl h))
  · exact .inr (.inr (.inl (hret hsafe)))
  · exact .inr (.inr (.inr (haway hsafe)))

lemma fenced_granted : Fenced (granted state request waiter) waiter :=
  .inr (.inl (by simp [granted]))

lemma fenced_cancelled (waiting) : Fenced (cancelled state waiter waiting) waiter :=
  .inr (.inl (by simp [cancelled]))

lemma fenced_retired : Fenced (retired state waiter) waiter :=
  .inr (.inr (.inl (by simp [retired])))

variable (hsafe : Fenced state waiter)

include hsafe

lemma Fenced.granted (other) : Fenced (granted state request other) waiter := by
  refine hsafe.grows (fun h => h) ?_ (fun h => h) (fun h => h)
  exact fun hm => .inl (mem_insert.mpr (.inr hm))

lemma Fenced.cancelled (other waiting) : Fenced (cancelled state other waiting) waiter := by
  refine hsafe.grows (fun h => h) ?_ (fun h => h) (fun h => h)
  exact fun hm => .inl (mem_insert.mpr (.inr hm))

lemma Fenced.retired (other) : Fenced (retired state other) waiter := by
  refine hsafe.grows (fun h => h) ?_ ?_ (fun h => h)
  · intro hm
    by_cases heq : other = waiter
    · exact .inr (by simp [Locks.retired, heq])
    · exact .inl (by simp [Locks.retired, heq, hm])
  · exact fun hm => ExtTreeSet.mem_insert.mpr (.inr hm)

lemma Fenced.releaseOwner (kind owner) : Fenced (releaseOwner kind state owner).state waiter := by
  refine hsafe.grows (fun h => h) ?_ (fun h => h) (fun h => h)
  exact fun hm => .inl (mem_map.mpr hm)

lemma Fenced.closeSession (session) :
    Fenced (closeSession limits (dropSession state session) session) waiter := by
  by_cases hss : waiter.ingressSessionId = session
  · subst hss
    exact .inr (.inr (.inr (closeSession_turnsAway _)))
  · apply hsafe.grows
    · exact fun hin => by rwa [closeSession_invalidated]
    · intro hm
      rw [mem_iff_isSome_getElem?, isSome_iff_exists] at hm
      obtain ⟨stored, hst⟩ := hm
      refine .inl ?_
      rw [closeSession_waiterOutcomes, mem_iff_isSome_getElem?, dropSession_outcome.mpr ⟨hst, hss⟩]
      rfl
    · intro hm
      rw [closeSession_retiredWaiters]
      exact dropSession_retired.mpr ⟨hm, hss⟩
    · intro haw
      have hdr : TurnsAway (dropSession state session)
          waiter.ingressSessionId := haw
      exact hdr.closeSession session

omit hsafe

lemma Spent.step (hspent : Spent world.table waiter)
    (hact : Effect limits world event after) : Spent after.table waiter := by
  obtain ⟨hid, hsafe⟩ := hspent
  cases hact with
  | refused | unacknowledged | ignored | known => exact ⟨hid, hsafe⟩
  | applied request result _ _ _ _ hap =>
    obtain ⟨_, rfl⟩ := hap
    exact ⟨hid, hsafe⟩
  | granted request other result _ _ _ hap =>
    obtain ⟨_, rfl⟩ := hap
    exact ⟨hid, Fenced.granted hsafe other⟩
  | waits request other had _ hop =>
    refine ⟨?_, hsafe⟩
    simp only [registered, mem_insert, Std.compare_eq_iff_eq, not_or]
    refine ⟨?_, hid⟩
    rintro rfl
    exact had.not_fenced (had.admits (not_unlock_of_opposed hop)) hsafe
  | stopped =>
    exact ⟨fun hm => hid (mem_of_mem_erase hm), hsafe⟩
  | resumed table result earlier later thread _ _ hap =>
    obtain ⟨_, rfl⟩ := hap
    refine ⟨fun hm => hid (mem_of_mem_erase hm), ?_⟩
    exact Fenced.granted hsafe thread.waiter
  | waitsAgain => exact ⟨fun hm => hid (mem_refreshed.mp hm), hsafe⟩
  | cancelled other waiting =>
    refine ⟨fun hm => hid (mem_of_mem_erase hm), ?_⟩
    exact Fenced.cancelled hsafe other (some waiting)
  | cancelledEarly other => exact ⟨hid, hsafe.cancelled other none⟩
  | acknowledged other => exact ⟨hid, hsafe.retired other⟩
  | released kind owner => exact ⟨hid, hsafe.releaseOwner kind owner⟩
  | dropped session =>
    refine ⟨?_, hsafe.closeSession session⟩
    rw [closeSession_waiters]
    exact fun hm => hid (mem_of_mem_filter hm)
  | invalidated => exact ⟨by simp [invalidate], .inl rfl⟩

/-- A grant ends the request it grants: one that is admitted, or one that waits. -/
lemma Effect.grants_cases (hact : Effect limits world event after)
    (hgrant : event.grants waiter = true) : Spent after.table waiter ∧
      ((∃ request result, event = .attempt request waiter result ∧
        Admitted world.table request waiter) ∨ waiter ∈ world.table.waiters) := by
  cases hact with
  | granted request other result had hf _ hap =>
    obtain ⟨_, rfl⟩ := hap
    obtain rfl : other = waiter := of_decide_eq_true hgrant
    exact ⟨⟨hf, fenced_granted⟩, .inl ⟨request, _, rfl, had⟩⟩
  | resumed table result earlier later thread hrs _ hap =>
    obtain ⟨_, rfl⟩ := hap
    obtain rfl : thread.waiter = waiter := of_decide_eq_true hgrant
    exact ⟨⟨not_mem_unregister, fenced_granted⟩, .inr hrs.entry⟩
  | refused event hfa =>
    unfold Event.Fails at hfa
    split at hfa <;> first | cases hgrant | cases hfa
  | released kind => cases kind <;> cases hgrant
  | _ => cases hgrant

lemma Effect.spent_of_ends (hact : Effect limits world event after)
    (hrecs : WaiterRecords world.table) (hends : event.Ends waiter) : Spent after.table waiter := by
  cases hact with
  | known other hsafe hid =>
    obtain rfl : other = waiter := hends
    refine ⟨?_, hsafe⟩
    rcases hid with hin | hid
    · simp [(hrecs.cleared hin).2.1]
    · exact hid
  | cancelled other =>
    obtain rfl : other = waiter := hends
    exact ⟨not_mem_unregister, fenced_cancelled _⟩
  | cancelledEarly other _ hid =>
    obtain rfl : other = waiter := hends
    exact ⟨hid, fenced_cancelled none⟩
  | acknowledged other outcome hkn =>
    obtain rfl : other = waiter := hends
    exact ⟨fun hm => (hrecs.pending hm).1 hkn, fenced_retired⟩
  | refused event hfa =>
    unfold Event.Fails at hfa
    split at hfa <;> first | cases hends | cases hfa
  | released kind => cases kind <;> cases hends
  | _ => cases hends

/-! ## What callers keep to -/

/-- A blocking request comes with an id of its owner's session, and an unlock
only while the table admits that session. -/
def Expected (state : LockTableState) : Event → Prop
  | .attempt request waiter _ =>
    request.owner.ingressSessionId = waiter.ingressSessionId ∧
      (request.lockType = .unlock → Admits state waiter.ingressSessionId)
  | _ => True

lemma Expected.sessionsAgree (hwant : Expected state event) : event.SessionsAgree := by
  cases event with
  | attempt => exact hwant.1
  | _ => trivial

lemma Expected.admits {result} (hwant : Expected state (.attempt request waiter result))
    (hadm : Admitted state request waiter) : Admits state waiter.ingressSessionId := by
  by_cases h : request.lockType = .unlock
  · exact hwant.2 h
  · exact hadm.admits h

lemma Spent.not_grants (hspent : Spent world.table waiter) (hact : Effect limits world event after)
    (hwant : Expected world.table event) : event.grants waiter = false := by
  rw [← Bool.not_eq_true]
  intro hgt
  obtain ⟨-, ⟨request, result, rfl, had⟩ | hwa⟩ := hact.grants_cases hgt
  · exact had.not_fenced (hwant.admits had) hspent.2
  · exact hspent.1 hwa

/-! ## Released sessions -/

/-- Nothing in the table belongs to the session. -/
structure LeavesNothing (state : LockTableState) (session : String) : Prop where
  locks : ∀ lock ∈ state.locks, lock.owner.ingressSessionId ≠ session
  entries : ∀ (waiter : LockWaiterId) (waiting : WaitingLock),
    state.waiters[waiter]? = some waiting →
      waiter.ingressSessionId ≠ session ∧ waiting.owner.ingressSessionId ≠ session
  outcomes : ∀ (waiter : LockWaiterId) (stored : StoredWaiterOutcome),
    state.waiterOutcomes[waiter]? = some stored → stored.outcome = .granted →
      waiter.ingressSessionId ≠ session ∧
        ∀ owner, stored.owner = some owner → owner.ingressSessionId ≠ session

/-- The session was released and the table will not take it back. -/
structure SessionGone (state : LockTableState) (session : String) : Prop where
  away : state.invalidated = true ∨ TurnsAway state session
  nothing : LeavesNothing state session

variable {session : String}

lemma LeavesNothing.of_cleared (hrecs : WaiterRecords state)
    (hinv : state.invalidated = true) : LeavesNothing state session := by
  obtain ⟨hlk, hwa, hot⟩ := hrecs.cleared hinv
  exact ⟨by simp [hlk], by simp [hwa], by simp [hot]⟩

lemma mem_candidate_owner (hlocks : Canonical state.locks) (hrange : request.range.Valid)
    (hlock : lock ∈ (candidate state request).1) : (∃ old ∈ state.locks, old.owner = lock.owner) ∨
      lock.owner = request.owner ∧ request.lockType ≠ .unlock := by
  have hv := (hlocks.candidate hrange).valid lock hlock
  rcases (holds_candidate hlocks hrange).mp (holds_start hlock hv) with
    ⟨⟨old, hol, _, how, _⟩, _⟩ | ⟨⟨_, how, _⟩, hty, hun⟩
  · exact .inl ⟨old, hol, how⟩
  · exact .inr ⟨how, hty ▸ hun⟩

section Kept

variable (hvoid : LeavesNothing state session)

include hvoid

/-- A request of another session, or an unlock, leaves nothing new behind. -/
lemma LeavesNothing.candidate (hlocks : Canonical state.locks) (hrange : request.range.Valid)
    (hsess : request.lockType = .unlock ∨ request.owner.ingressSessionId ≠ session) :
    ∀ lock ∈ (candidate state request).1, lock.owner.ingressSessionId ≠ session := by
  intro lock hlc
  rcases mem_candidate_owner hlocks hrange hlc with
    ⟨old, hol, how⟩ | ⟨how, hun⟩
  · rw [← how]
    exact hvoid.locks old hol
  · rw [how]
    exact hsess.resolve_left hun

lemma LeavesNothing.applied (hlocks : Canonical state.locks) (hrange : request.range.Valid)
    (hsess : request.lockType = .unlock ∨ request.owner.ingressSessionId ≠ session)
    (happs : Applies limits state request result) : LeavesNothing result session := by
  obtain ⟨_, rfl⟩ := happs
  exact ⟨hvoid.candidate hlocks hrange hsess, hvoid.entries, hvoid.outcomes⟩

lemma LeavesNothing.granted (hwait : waiter.ingressSessionId ≠ session)
    (hown : request.owner.ingressSessionId ≠ session) :
    LeavesNothing (granted state request waiter) session where
  locks := hvoid.locks
  entries := hvoid.entries
  outcomes := by
    intro other stored hst hgr
    rcases getElem?_insert_cases hst with ⟨rfl, rfl⟩ | hst
    · refine ⟨hwait, ?_⟩
      rintro owner ⟨⟩
      exact hown
    · exact hvoid.outcomes other stored hst hgr

lemma LeavesNothing.unregister : LeavesNothing (unregister state waiter) session where
  locks := hvoid.locks
  entries other waiting h := hvoid.entries other waiting (getElem?_of_erase h)
  outcomes := hvoid.outcomes

lemma LeavesNothing.registered (hwait : waiter.ingressSessionId ≠ session)
    (hown : request.owner.ingressSessionId ≠ session) :
    LeavesNothing (registered state request waiter) session where
  locks := hvoid.locks
  entries := by
    intro other waiting h
    rcases getElem?_insert_cases h with ⟨rfl, rfl⟩ | h
    · exact ⟨hwait, hown⟩
    · exact hvoid.entries other waiting h
  outcomes := hvoid.outcomes

lemma LeavesNothing.refreshed : LeavesNothing (refreshed state request waiter) session where
  locks := hvoid.locks
  entries := by
    intro other waiting he
    rw [refreshed_waiters] at he
    split at he
    next heq =>
      subst heq
      obtain ⟨old, hol, rfl⟩ := map_eq_some_iff.mp he
      exact hvoid.entries waiter old hol
    · exact hvoid.entries other waiting he
  outcomes := hvoid.outcomes

lemma LeavesNothing.cancelled (waiting) :
    LeavesNothing (cancelled state waiter waiting) session where
  locks := hvoid.locks
  entries := hvoid.entries
  outcomes := by
    intro other stored hst hgr
    rcases getElem?_insert_cases hst with ⟨rfl, rfl⟩ | hst
    · cases hgr
    · exact hvoid.outcomes other stored hst hgr

lemma LeavesNothing.retired : LeavesNothing (retired state waiter) session where
  locks := hvoid.locks
  entries := hvoid.entries
  outcomes other stored h := hvoid.outcomes other stored (getElem?_of_erase h)

omit hvoid in
lemma retainOutcome_granted (hgranted : (retainOutcome owner kind stored).outcome = .granted) :
    stored.outcome = .granted := by
  unfold retainOutcome at hgranted
  split at hgranted
  · cases hgranted
  · exact hgranted

lemma LeavesNothing.releaseOwner (kind owner) :
    LeavesNothing (releaseOwner kind state owner).state session where
  locks := fun lock hlk =>
    hvoid.locks lock (List.mem_of_mem_filter hlk)
  entries := hvoid.entries
  outcomes := by
    intro other stored hst hgr
    simp only [Locks.releaseOwner, retainWaiterOutcomes, getElem?_map] at hst
    obtain ⟨old, hol, rfl⟩ := map_eq_some_iff.mp hst
    rw [retainOutcome_owner]
    exact hvoid.outcomes other old hol (retainOutcome_granted hgr)

lemma LeavesNothing.dropSession (other) :
    LeavesNothing (closeSession limits (dropSession state other) other)
      session where
  locks := by
    rw [closeSession_locks]
    exact fun lock hlk => hvoid.locks lock (List.mem_of_mem_filter hlk)
  entries := by
    intro waiter waiting he
    rw [closeSession_waiters, dropSession_entry] at he
    exact hvoid.entries waiter waiting he.1
  outcomes := by
    intro waiter stored hst
    rw [closeSession_waiterOutcomes, dropSession_outcome] at hst
    exact hvoid.outcomes waiter stored hst.1

end Kept

lemma dropSession_leavesNothing (hrecs : WaiterRecords state) :
    LeavesNothing (closeSession limits (dropSession state session) session)
      session where
  locks := by
    rw [closeSession_locks]
    intro lock hlk
    simpa using List.of_mem_filter hlk
  entries := by
    intro waiter waiting he
    rw [closeSession_waiters, dropSession_entry] at he
    exact he.2
  outcomes := by
    intro waiter stored hst _
    rw [closeSession_waiterOutcomes, dropSession_outcome] at hst
    refine ⟨hst.2, fun owner how => ?_⟩
    rw [hrecs.owners hst.1 how]
    exact hst.2

lemma SessionGone.ne_of_admits (hgone : SessionGone state session)
    (hlive : state.invalidated = false) (hpass : Admits state other) : other ≠ session := by
  rintro rfl
  rcases hgone.away with hin | haw
  · simp [hlive] at hin
  · exact turnsAway_iff.mp haw hpass

lemma SessionGone.step (hgone : SessionGone world.table session)
    (hworld : WaitersInvariant limits world) (hact : Effect limits world event after)
    (hwant : Expected world.table event) : SessionGone after.table session := by
  obtain ⟨haw, hvoid⟩ := hgone
  have hcn := hworld.locks.canonical
  have hgone : SessionGone world.table session := ⟨haw, hvoid⟩
  cases hact with
  | refused | unacknowledged | ignored | known => exact hgone
  | applied request result hrg hlv had _ hap =>
    have hss := had.imp_right (hgone.ne_of_admits hlv)
    have ha := hvoid.applied hcn hrg hss hap
    obtain ⟨_, rfl⟩ := hap
    exact ⟨haw, ha⟩
  | granted request waiter result had _ _ hap =>
    have hwt := hgone.ne_of_admits had.live (hwant.admits had)
    have how : request.owner.ingressSessionId ≠ session := by
      rw [hwant.1]
      exact hwt
    have ha := hvoid.applied hcn had.range (.inr how) hap
    obtain ⟨_, rfl⟩ := hap
    exact ⟨haw, ha.granted hwt how⟩
  | waits request waiter had =>
    have hwt := hgone.ne_of_admits had.live (hwant.admits had)
    have how : request.owner.ingressSessionId ≠ session := by
      rw [hwant.1]
      exact hwt
    exact ⟨haw, hvoid.registered hwt how⟩
  | stopped => exact ⟨haw, hvoid.unregister⟩
  | resumed table result earlier later thread hrs _ hap =>
    have he := hrs.entry
    rw [mem_iff_isSome_getElem?, isSome_iff_exists] at he
    obtain ⟨waiting, he⟩ := he
    have hwt := (hvoid.entries _ waiting he).1
    have how : thread.request.owner.ingressSessionId ≠ session := by
      rw [hworld.threads thread (by simp)]
      exact hwt
    have hun : LeavesNothing (unregister table thread.waiter)
        session := hvoid.unregister
    have ha := hun.applied hcn (hworld.locks.ranged thread (by simp)) (.inr how) hap
    obtain ⟨_, rfl⟩ := hap
    exact ⟨haw, ha.granted hwt how⟩
  | waitsAgain => exact ⟨haw, hvoid.refreshed⟩
  | cancelled waiter waiting =>
    exact ⟨haw, hvoid.unregister.cancelled (some waiting)⟩
  | cancelledEarly => exact ⟨haw, hvoid.cancelled none⟩
  | acknowledged => exact ⟨haw, hvoid.retired⟩
  | released kind owner => exact ⟨haw, hvoid.releaseOwner kind owner⟩
  | dropped other hlv =>
    refine ⟨.inr ?_, hvoid.dropSession other⟩
    have hdr : TurnsAway (dropSession world.table other) session := haw.resolve_left (by simp [hlv])
    exact hdr.closeSession other
  | invalidated =>
    exact ⟨.inl rfl, by simp [invalidate], by simp [invalidate], by simp [invalidate]⟩

lemma Effect.sessionGone (hact : Effect limits world (.releaseSession session) after)
    (hrecs : WaiterRecords world.table) : SessionGone after.table session := by
  generalize hev : Event.releaseSession session = event at hact
  cases hact with
  | ignored _ hin =>
    cases hev
    exact ⟨.inl hin, .of_cleared hrecs hin⟩
  | dropped =>
    cases hev
    exact ⟨.inr (closeSession_turnsAway session), dropSession_leavesNothing hrecs⟩
  | refused _ hfa =>
    subst hev
    cases hfa
  | released kind => cases kind <;> cases hev
  | _ => cases hev

/-! ## The fences -/

/-- A step that callers keep to. -/
def FencedStep (limits : LockTableLimits) (world : World) (event : Event) (after : World) : Prop :=
  Step limits world event after ∧ Expected world.table event

lemma WaitersInvariant.run (hrun : Run (FencedStep limits) world events after)
    (hworld : WaitersInvariant limits world) : WaitersInvariant limits after := by
  induction hrun with
  | refl => exact hworld
  | snoc _ last ih => exact ih.step last.1.effect last.2.sessionsAgree

/-- From a state in which a waiter is spent on, no step grants it anything. -/
lemma Spent.no_grants (hrun : Run (FencedStep limits) world events after)
    (hspent : Spent world.table waiter) : ∀ event ∈ events, event.grants waiter = false := by
  refine @Run.forall_label _ _ _ _ _ _ (fun world => Spent world.table waiter) _ ?_ hrun hspent
  intro before event after hb hst
  exact ⟨hb.step hst.1.effect, hb.not_grants hst.1.effect hst.2⟩

lemma grants_at_most_once (hrun : Run (FencedStep limits) {} events world) (waiter) :
    events.countP (Event.grants waiter) ≤ 1 := by
  have hal : events.countP (Event.grants waiter) ≤ 1 ∧
      (0 < events.countP (Event.grants waiter) → Spent world.table waiter) := by
    induction hrun with
    | refl => simp
    | @snoc middle finish labels label _ last ih =>
      rw [List.countP_append, List.countP_singleton]
      cases hgt : label.grants waiter with
      | true =>
        have hnn : ¬ 0 < labels.countP (Event.grants waiter) := by
          intro hps
          have hno := (ih.2 hps).not_grants last.1.effect last.2
          simp [hgt] at hno
        refine ⟨?_, fun _ => (last.1.effect.grants_cases hgt).1⟩
        simp only [if_true]
        omega
      | false =>
        simp only [Bool.false_eq_true, if_false, Nat.add_zero]
        exact ⟨ih.1, fun hps => (ih.2 hps).step last.1.effect⟩
  exact hal.1

/-- Where blocking requests use ids of their owner's session, and no blocking
unlock is sent for a session the table turned away, a waiter is granted at most
once, never after it was cancelled or acknowledged, and a released session
leaves nothing in the table ever after. -/
theorem waiters_and_sessions_fenced (limits : LockTableLimits) {events : List Event} {world : World}
    (hrun : Run (FencedStep limits) {} events world) :
    (∀ waiter, events.countP (Event.grants waiter) ≤ 1) ∧
    (∀ waiter earlier event later, events = earlier ++ event :: later →
      event.Ends waiter → ∀ other ∈ later, other.grants waiter = false) ∧
    ∀ session earlier later, events = earlier ++ .releaseSession session :: later →
        LeavesNothing world.table session := by
  refine ⟨grants_at_most_once hrun, ?_, ?_⟩
  · rintro waiter earlier event later rfl hends
    obtain ⟨before, after, hpast, hstep, hlater⟩ := hrun.of_middle
    have hrecords := (WaitersInvariant.run hpast .initial).records
    exact Spent.no_grants hlater (hstep.1.effect.spent_of_ends hrecords hends)
  · rintro session earlier later rfl
    obtain ⟨before, after, hpast, hstep, hlater⟩ := hrun.of_middle
    have hpre := WaitersInvariant.run hpast .initial
    have hgone := hstep.1.effect.sessionGone hpre.records
    have hpost := hpre.step hstep.1.effect hstep.2.sessionsAgree
    have hkept : WaitersInvariant limits world ∧ SessionGone world.table session := by
      refine @Run.invariant _ _ _ _ _ _ (fun world =>
        WaitersInvariant limits world ∧ SessionGone world.table session) ?_
        hlater ⟨hpost, hgone⟩
      intro first label second hinv hnext
      exact ⟨hinv.1.step hnext.1.effect hnext.2.sessionsAgree,
        hinv.2.step hinv.1 hnext.1.effect hnext.2⟩
    exact hkept.2.nothing

/-! ## Runs -/

def sampleWaiter (session : String) : LockWaiterId := ⟨session, 7⟩

/-- A session gets a lock and is released. -/
def returningWorld : World :=
  let locked := ({} : World).attempt sampleLimits
    (sampleRequest "a" .posix .write 0 9) (sampleWaiter "a")
  locked.leave (releaseSession sampleLimits locked.table "a")

lemma returningWorld_run : ∃ granted, Run (FencedStep sampleLimits) {}
    [.attempt (sampleRequest "a" .posix .write 0 9) (sampleWaiter "a") granted,
      .releaseSession "a"] returningWorld := by
  refine ⟨_, .snoc (.snoc (.refl _) ⟨.attempt _ _ _, rfl, ?_⟩) ⟨.releaseSession _ _, trivial⟩⟩
  rintro ⟨⟩

theorem returningWorld_fenced : (setlkBlocking sampleLimits {} (sampleRequest "a" .posix .write 0 9)
      (sampleWaiter "a")).state.locks.length = 1 ∧
    returningWorld.table.closedSessions.contains "a" = true ∧
    LeavesNothing returningWorld.table "a" := by
  obtain ⟨granted, hrun⟩ := returningWorld_run
  exact ⟨by decide +kernel, by decide +kernel,
    (waiters_and_sessions_fenced sampleLimits hrun).2.2 "a" [_] [] rfl⟩

/-- The released session sends a blocking unlock. -/
def unlockedWorldAfterRelease : World :=
  returningWorld.attempt sampleLimits (sampleRequest "a" .posix .unlock 0 9) (sampleWaiter "a")

/-- The unlock is granted after the release, and its outcome stays. -/
theorem released_session_gets_outcome : (∃ granted result, Run (Step sampleLimits) {}
      [.attempt (sampleRequest "a" .posix .write 0 9) (sampleWaiter "a") granted,
        .releaseSession "a", .attempt (sampleRequest "a" .posix .unlock 0 9) (sampleWaiter "a")
          result] unlockedWorldAfterRelease) ∧
    unlockedWorldAfterRelease.table.waiterOutcomes[sampleWaiter "a"]? =
      some ⟨.granted, some (sampleOwner "a"), some .posix⟩ := by
  refine ⟨⟨_, _, .snoc (.snoc (.snoc (.refl _) (.attempt _ _ _))
    (.releaseSession _ _)) (.attempt _ _ _)⟩, ?_⟩
  decide +kernel

end AgentDx.Locks
