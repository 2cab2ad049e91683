import AgentDx.Locks.Waiters

/-!
# Deadlocks and wake-ups

The waiting entries of a table say which owners wait for which.  The relation
between owners stays acyclic, because a request that would close a cycle is
refused; and an entry whose thread was not notified since it last looked is up
to date, because no lock changes without a notification.
-/

namespace AgentDx.Locks

open Std Segments Transition Search List ExtTreeMap

variable {limits : LockTableLimits} {state : LockTableState}
  {waiters : Waiters} {request : LockRequest} {waiter : LockWaiterId}
  {world after : World} {event : Event}

/-! ## The wait-for relation -/

/-- A waiting request of the first owner was blocked by the second. -/
def WaitsOn (waiters : Waiters) (first second : FileLockOwner) : Prop :=
  ∃ (waiter : LockWaiterId) (waiting : WaitingLock),
    waiters[waiter]? = some waiting ∧ waiting.owner = first ∧ second ∈ waiting.blockers

/-- The relation between owners within one kind of locks. -/
def PairWaitsOn (waiters : Waiters) (first second : FileLockKind × FileLockOwner) : Prop :=
  ∃ (waiter : LockWaiterId) (waiting : WaitingLock),
    waiters[waiter]? = some waiting ∧ waiting.kind = first.1 ∧
      waiting.owner = first.2 ∧ second.1 = waiting.kind ∧ second.2 ∈ waiting.blockers

lemma edge_waitsFor : Edge (waitsFor waiters) = WaitsOn waiters := by
  funext first second
  simp only [Edge, waitsFor, mem_flatMap, mem_filter, decide_eq_true_eq, WaitsOn, Prod.exists,
    mem_toList_iff_getElem?_eq_some, and_assoc]

/-- The owners that wait for something. -/
def waitingOwners (waiters : Waiters) : Finset FileLockOwner :=
  (waiters.toList.map fun entry => entry.2.owner).toFinset

lemma card_waitingOwners_le : (waitingOwners waiters).card ≤ waiters.size := by
  calc (waitingOwners waiters).card
    _ ≤ (waiters.toList.map fun entry => entry.2.owner).length := toFinset_card_le _
    _ = waiters.size := by rw [length_map, length_toList]

lemma mem_waitingOwners (hwaits : waitsFor waiters owner ≠ []) : owner ∈ waitingOwners waiters := by
  obtain ⟨blocker, hbl⟩ := exists_mem_of_ne_nil _ hwaits
  simp only [waitsFor, mem_flatMap, mem_filter, decide_eq_true_eq] at hbl
  obtain ⟨entry, ⟨he, how⟩, _⟩ := hbl
  simp only [waitingOwners, mem_toFinset, mem_map]
  exact ⟨entry, he, how⟩

/-- The search ends on every table, with the answer of reachability. -/
lemma deadlockSearch_eq (owner blockers) :
    ∃ found seen, deadlockSearch waiters owner blockers = some (found, seen) ∧
      (found = true ↔ ∃ blocker ∈ blockers,
        Relation.ReflTransGen (WaitsOn waiters) blocker owner) := by
  rw [← edge_waitsFor]
  apply searchAny_eq (fun _ hwa => mem_waitingOwners hwa)
  have hcr := @card_waitingOwners_le waiters
  omega

lemma wouldDeadlock_iff : wouldDeadlock waiters owner blockers = true ↔ ∃ blocker ∈ blockers,
      Relation.ReflTransGen (WaitsOn waiters) blocker owner := by
  obtain ⟨found, seen, hse, hfn⟩ := @deadlockSearch_eq waiters owner blockers
  rw [← hfn, wouldDeadlock, hse]
  rfl

/-! ## When a blocking request deadlocks -/

lemma mem_foldl_owners (locks : List ActiveLock) (owners) : owner ∈ locks.foldl (fun owners lock =>
        if lock.owner ∈ owners then owners else owners ++ [lock.owner]) owners ↔
      owner ∈ owners ∨ ∃ lock ∈ locks, lock.owner = owner := by
  induction locks generalizing owners with
  | nil => simp
  | cons lock locks ih =>
    rw [foldl_cons, ih, exists_mem_cons_iff, ← or_assoc]
    apply or_congr_left
    split
    next h =>
      exact ⟨.inl, fun hor => hor.elim id (fun heq => heq ▸ h)⟩
    · rw [mem_append, mem_singleton, eq_comm]

lemma mem_blockingOwners : owner ∈ blockingOwners locks request ↔
      ∃ lock ∈ locks, conflicts lock request = true ∧ lock.owner = owner := by
  unfold blockingOwners
  rw [mem_foldl_owners]
  simp [and_assoc]

lemma opposed_conflicts (hopp : ¬ Unopposed state.locks request) :
    ∃ lock ∈ state.locks, conflicts lock request = true := by
  by_contra hnn
  apply hopp
  refine .inr ((firstConflict_eq_none (not_unlock_of_opposed hopp)).mpr fun lock hlk => ?_)
  rw [← Bool.not_eq_true]
  exact fun hcn => hnn ⟨lock, hlk, hcn⟩

/-- Who blocks a request reaches the one that makes it. -/
def ClosesCycle (state : LockTableState) (request : LockRequest) : Prop :=
  request.lockType ≠ .unlock ∧ ∃ blocker ∈ blockingOwners state.locks request,
      Relation.ReflTransGen (WaitsOn state.waiters) blocker request.owner

lemma ClosesCycle.opposed (hcycle : ClosesCycle state request) :
    ¬ Unopposed state.locks request := by
  obtain ⟨hlk, blocker, hbl, _⟩ := hcycle
  rintro (hun | hnn)
  · exact hlk hun
  · obtain ⟨lock, hm, hcn, _⟩ := mem_blockingOwners.mp hbl
    rw [firstConflict_eq_none hlk] at hnn
    simp [hnn lock hm] at hcn

lemma closesCycle_iff (hopp : ¬ Unopposed state.locks request) :
    ClosesCycle state request ↔ wouldDeadlock state.waiters request.owner
      (blockingOwners state.locks request) = true := by
  rw [wouldDeadlock_iff]
  exact and_iff_right (not_unlock_of_opposed hopp)

lemma grantWaiter_not_deadlock :
    (grantWaiter limits state request waiter).result ≠ some (.error .deadlock) := by
  have hcs := @grantWaiter_cases limits state request waiter
  generalize grantWaiter limits state request waiter = reply at hcs
  cases hcs with
  | refused error hre => simpa [returns] using hre
  | applied => simp

lemma admitBlocking_not_deadlock : admitBlocking state request waiter ≠ .error .deadlock := by
  unfold admitBlocking validateRange
  split
  next error h =>
    split at h
    · cases h
    · cases h
      simp
  · split
    · simp
    · split
      · simp
      · split
        · simp
        · split
          · simp
          · simp
          · simp
          · split <;> simp

/-- A blocking attempt that the table admits under a new id returns `Deadlock`
exactly when it would close a cycle. -/
lemma setlkBlocking_deadlock_iff :
    (setlkBlocking limits state request waiter).result = some (.error .deadlock) ↔
      Admitted state request waiter ∧ waiter ∉ state.waiters ∧ ClosesCycle state request := by
  rw [← admitBlocking_ok]
  unfold setlkBlocking
  cases hps : admitBlocking state request waiter with
  | error error =>
    have hre := @admitBlocking_not_deadlock state request waiter
    rw [hps] at hre
    simp only [returns, reduceCtorEq, false_and, iff_false]
    simpa using hre
  | ok =>
    simp only [true_and]
    unfold registerWaiter
    split
    next hkn =>
      simp [returns, hkn]
    rename_i hf
    split
    next hun =>
      rw [← unopposed_iff] at hun
      refine iff_of_false grantWaiter_not_deadlock ?_
      exact fun hcy => hcy.2.opposed hun
    rename_i hop
    rw [← unopposed_iff] at hop
    rw [closesCycle_iff hop]
    split
    next hde =>
      simp [returns, hf, hde]
    next hsf =>
      split <;> simp [returns, hsf]

/-- A thread that goes on after a wait returns `Deadlock` exactly when its
request closes a cycle now. -/
lemma resumeWaiter_deadlock_iff :
    (resumeWaiter limits state request waiter).result = some (.error .deadlock) ↔
      isInterrupted state request waiter = false ∧ ClosesCycle state request := by
  unfold resumeWaiter
  split
  next hin =>
    simp [returns, hin]
  rename_i hgs
  rw [Bool.not_eq_true] at hgs
  rw [and_iff_right hgs]
  unfold recheckWaiter
  split
  next hun =>
    rw [← unopposed_iff] at hun
    exact iff_of_false grantWaiter_not_deadlock fun hcy => hcy.opposed hun
  rename_i hop
  rw [← unopposed_iff] at hop
  rw [closesCycle_iff hop]
  split
  next hde =>
    simp [returns, hde]
  next hsf =>
    simp [hsf]

/-! ## Threads and their entries -/

structure ThreadsMatch (world : World) : Prop where
  distinct : (world.threads.map WaitingThread.waiter).Nodup
  owned : ∀ waiter ∈ world.table.waiters, ∃ thread ∈ world.threads, thread.waiter = waiter
  entry : ∀ thread ∈ world.threads, ∀ waiting, world.table.waiters[thread.waiter]? = some waiting →
      waiting.owner = thread.request.owner ∧ waiting.kind = thread.request.kind ∧
      (thread.signalled = false → ¬ Unopposed world.table.locks thread.request ∧
        waiting.blockers = blockingOwners world.table.locks thread.request)
  gone : ∀ thread ∈ world.threads, thread.waiter ∉ world.table.waiters →
    Spent world.table thread.waiter

lemma ThreadsMatch.initial : ThreadsMatch {} where
  distinct := by simp
  owned := by simp
  entry := by simp
  gone := by simp

/-- Every entry of the first map is in the second. -/
def Within (fewer waiters : Waiters) : Prop :=
  ∀ (waiter : LockWaiterId) (waiting : WaitingLock),
    fewer[waiter]? = some waiting → waiters[waiter]? = some waiting

lemma Within.refl (waiters) : Within waiters waiters := fun _ _ hrow => hrow

lemma Within.erase (waiters : Waiters) (waiter) : Within (waiters.erase waiter) waiters :=
  fun _ _ h => OrderedMap.getElem?_of_erase h

lemma mem_iff_entry : waiter ∈ waiters ↔ ∃ waiting, waiters[waiter]? = some waiting := by
  rw [mem_iff_isSome_getElem?, Option.isSome_iff_exists]

lemma Within.mem (hwithin : Within fewer waiters) (hmem : waiter ∈ fewer) : waiter ∈ waiters := by
  obtain ⟨waiting, h⟩ := mem_iff_entry.mp hmem
  exact mem_iff_entry.mpr ⟨waiting, hwithin waiter waiting h⟩

lemma Within.waitsOn (hwithin : Within fewer waiters) (first second)
    (hwaits : WaitsOn fewer first second) : WaitsOn waiters first second := by
  obtain ⟨waiter, waiting, he, hr⟩ := hwaits
  exact ⟨waiter, waiting, hwithin waiter waiting he, hr⟩

/-- Threads stay matched while entries only go for good, and locks change only
with a notification. -/
lemma ThreadsMatch.shrink (hworld : ThreadsMatch world)
    (hlocks : notified = false → table.locks = world.table.locks)
    (hwithin : Within table.waiters world.table.waiters)
    (hspent : ∀ waiter, Spent world.table waiter → Spent table waiter)
    (hgone : ∀ waiter ∈ world.table.waiters, waiter ∉ table.waiters → Spent table waiter) :
    ThreadsMatch ⟨table, world.threads.map (.notify notified)⟩ where
  distinct := by
    rw [List.map_map]
    exact hworld.distinct
  owned := by
    intro waiter hwr
    obtain ⟨thread, hth, heq⟩ := hworld.owned waiter (hwithin.mem hwr)
    exact ⟨thread.notify notified, List.mem_map_of_mem hth, heq⟩
  entry := by
    intro thread hth waiting he
    obtain ⟨old, hol, rfl⟩ := List.mem_map.mp hth
    obtain ⟨how, hkn, hf⟩ := hworld.entry old hol waiting (hwithin _ _ he)
    refine ⟨how, hkn, fun hqu => ?_⟩
    simp only [WaitingThread.notify, Bool.or_eq_false_iff] at hqu
    rw [hlocks hqu.2]
    exact hf hqu.1
  gone := by
    intro thread hth hnt
    obtain ⟨old, hol, rfl⟩ := List.mem_map.mp hth
    by_cases hin : old.waiter ∈ world.table.waiters
    · exact hgone old.waiter hin hnt
    · exact hspent old.waiter (hworld.gone old hol hin)

section Resume

variable {table : LockTableState} {earlier later : List WaitingThread}
  {thread : WaitingThread}

lemma ThreadsMatch.alone (hworld : ThreadsMatch ⟨table, earlier ++ thread :: later⟩) :
    ∀ other ∈ earlier ++ later, other.waiter ≠ thread.waiter := by
  have hds := hworld.distinct
  rw [map_append, map_cons, nodup_middle, ← map_append, nodup_cons] at hds
  intro other ho heq
  exact hds.1 (heq ▸ mem_map_of_mem ho)

lemma mem_rest (hother : other ∈ earlier ++ later) : other ∈ earlier ++ thread :: later := by
  simp only [mem_append, mem_cons] at hother ⊢
  tauto

lemma distinct_rest (hdist : ((earlier ++ thread :: later).map WaitingThread.waiter).Nodup) :
    ((earlier ++ later).map WaitingThread.waiter).Nodup := by
  refine List.Nodup.sublist ?_ hdist
  exact ((sublist_cons_self thread later).append_left earlier).map _

lemma owned_rest (hworld : ThreadsMatch ⟨table, earlier ++ thread :: later⟩)
    (hwait : waiter ∈ table.waiters) (hother : waiter ≠ thread.waiter) :
    ∃ other ∈ earlier ++ later, other.waiter = waiter := by
  obtain ⟨other, h, rfl⟩ := hworld.owned waiter hwait
  refine ⟨other, ?_, rfl⟩
  simp only [mem_append, mem_cons] at h ⊢
  rcases h with h | rfl | h
  · exact .inl h
  · exact absurd rfl hother
  · exact .inr h

lemma ThreadsMatch.remove (hworld : ThreadsMatch ⟨table, earlier ++ thread :: later⟩) :
    ThreadsMatch ⟨unregister table thread.waiter, earlier ++ later⟩ where
  distinct := distinct_rest hworld.distinct
  owned := by
    intro waiter hwt
    simp only [unregister, mem_erase, ne_eq, Std.compare_eq_iff_eq] at hwt
    exact owned_rest hworld hwt.2 (Ne.symm hwt.1)
  entry := by
    intro other ho waiting he
    exact hworld.entry other (mem_rest ho) waiting (Within.erase _ _ _ _ he)
  gone := by
    intro other ho hnt
    have hne := hworld.alone other ho
    have hid : other.waiter ∉ table.waiters := by
      intro hin
      apply hnt
      simp [unregister, hin, Ne.symm hne]
    obtain ⟨_, hfn⟩ := hworld.gone other (mem_rest ho) hid
    exact ⟨hnt, hfn⟩

lemma ThreadsMatch.refresh (hworld : ThreadsMatch ⟨table, earlier ++ thread :: later⟩)
    (hentered : thread.waiter ∈ table.waiters) (hopp : ¬ Unopposed table.locks thread.request) :
    ThreadsMatch ⟨refreshed table thread.request thread.waiter,
      ⟨thread.request, thread.waiter, false⟩ :: (earlier ++ later)⟩ where
  distinct := by
    rw [map_cons, nodup_cons]
    refine ⟨?_, distinct_rest hworld.distinct⟩
    intro hm
    obtain ⟨other, ho, heq⟩ := mem_map.mp hm
    exact hworld.alone other ho heq
  owned := by
    intro waiter hwt
    rw [mem_refreshed] at hwt
    by_cases heq : waiter = thread.waiter
    · exact ⟨_, mem_cons_self, heq.symm⟩
    · obtain ⟨other, ho, hwa⟩ := owned_rest hworld hwt heq
      exact ⟨other, mem_cons_of_mem _ ho, hwa⟩
  entry := by
    intro other ho waiting he
    rw [refreshed_waiters] at he
    rcases mem_cons.mp ho with rfl | ho
    · rw [if_pos rfl] at he
      obtain ⟨old, hol, rfl⟩ := Option.map_eq_some_iff.mp he
      obtain ⟨how, hkn, _⟩ := hworld.entry thread (by simp) old hol
      exact ⟨how, hkn, fun _ => ⟨hopp, rfl⟩⟩
    · rw [if_neg (Ne.symm (hworld.alone other ho))] at he
      exact hworld.entry other (mem_rest ho) waiting he
  gone := by
    intro other ho hnt
    rw [mem_refreshed] at hnt
    rcases mem_cons.mp ho with rfl | ho
    · exact absurd hentered hnt
    · obtain ⟨hid, hfn⟩ := hworld.gone other (mem_rest ho) hnt
      exact ⟨fun hin => hid (mem_refreshed.mp hin), hfn⟩

end Resume

lemma registered_waiters (other) :
    (registered state request waiter).waiters[other]? = if waiter = other then
        some ⟨request.owner, request.kind, blockingOwners state.locks request⟩
      else state.waiters[other]? := by
  simp [registered, ExtTreeMap.getElem?_insert]

lemma ThreadsMatch.unused (hworld : ThreadsMatch world)
    (hadm : Admitted world.table request waiter) (hnew : waiter ∉ world.table.waiters)
    (hopp : ¬ Unopposed world.table.locks request) :
    ∀ thread ∈ world.threads, thread.waiter ≠ waiter := by
  rintro thread hth rfl
  have hads := hadm.admits (not_unlock_of_opposed hopp)
  exact hadm.not_fenced hads (hworld.gone thread hth hnew).2

lemma ThreadsMatch.register (hworld : ThreadsMatch world)
    (hunused : ∀ thread ∈ world.threads, thread.waiter ≠ waiter)
    (hopp : ¬ Unopposed world.table.locks request) :
    ThreadsMatch ⟨registered world.table request waiter,
      ⟨request, waiter, false⟩ :: world.threads⟩ where
  distinct := by
    rw [map_cons, nodup_cons]
    refine ⟨?_, hworld.distinct⟩
    intro hm
    obtain ⟨thread, hth, heq⟩ := mem_map.mp hm
    exact hunused thread hth heq
  owned := by
    intro other ho
    simp only [registered, mem_insert, Std.compare_eq_iff_eq] at ho
    rcases ho with rfl | ho
    · exact ⟨_, mem_cons_self, rfl⟩
    · obtain ⟨thread, hth, heq⟩ := hworld.owned other ho
      exact ⟨thread, mem_cons_of_mem _ hth, heq⟩
  entry := by
    intro thread hth waiting he
    rw [registered_waiters] at he
    rcases mem_cons.mp hth with rfl | hth
    · rw [if_pos rfl, Option.some.injEq] at he
      subst he
      exact ⟨rfl, rfl, fun _ => ⟨hopp, rfl⟩⟩
    · rw [if_neg (Ne.symm (hunused thread hth))] at he
      exact hworld.entry thread hth waiting he
  gone := by
    intro thread hth hnt
    simp only [registered, mem_insert, Std.compare_eq_iff_eq, not_or] at hnt
    rcases mem_cons.mp hth with rfl | hth
    · exact absurd rfl hnt.1
    · obtain ⟨_, hfn⟩ := hworld.gone thread hth hnt.2
      refine ⟨?_, hfn⟩
      simpa [registered] using hnt

/-! ## The invariant -/

structure DeadlockInvariant (limits : LockTableLimits) (world : World) : Prop where
  base : WaitersInvariant limits world
  threads : ThreadsMatch world
  acyclic : Acyclic (WaitsOn world.table.waiters)

lemma DeadlockInvariant.initial : DeadlockInvariant limits {} where
  base := .initial
  threads := .initial
  acyclic := by
    intro owner hcy
    obtain ⟨_, hed, _⟩ := Relation.TransGen.head'_iff.mp hcy
    obtain ⟨waiter, waiting, he, _⟩ := hed
    simp at he

lemma dropSession_within (session) :
    Within (closeSession limits (dropSession state session) session).waiters
      state.waiters := by
  intro waiter waiting h
  rw [closeSession_waiters, dropSession_entry] at h
  exact h.1

lemma dropSession_spent (hrecs : WaiterRecords state) (hmem : waiter ∈ state.waiters)
    (hnot : waiter ∉ (closeSession limits (dropSession state session) session).waiters) :
    Spent (closeSession limits (dropSession state session) session) waiter := by
  refine ⟨hnot, .inr (.inr (.inr ?_))⟩
  have hss : waiter.ingressSessionId = session := by
    by_contra ho
    apply hnot
    obtain ⟨waiting, he⟩ := mem_iff_entry.mp hmem
    refine mem_iff_entry.mpr ⟨waiting, ?_⟩
    rw [closeSession_waiters, dropSession_entry]
    refine ⟨he, ho, ?_⟩
    rw [hrecs.entries he]
    exact ho
  rw [hss]
  exact closeSession_turnsAway session

lemma releaseOwner_quiet (hquiet : (releaseOwner kind state owner).notified = false) :
    (releaseOwner kind state owner).state.locks = state.locks := by
  simp only [releaseOwner, ne_eq, decide_not, Bool.not_eq_false', decide_eq_true_eq] at hquiet
  exact filter_eq_self.mpr (length_filter_eq_length_iff.mp hquiet)

lemma releaseSession_quiet (hlive : state.invalidated = false)
    (hquiet : (releaseSession limits state session).notified = false) :
    (closeSession limits (dropSession state session) session).locks = state.locks := by
  simp only [releaseSession, hlive, Bool.false_eq_true, if_false, ne_eq,
    decide_eq_false_iff_not, not_or, not_not] at hquiet
  rw [closeSession_locks]
  exact filter_eq_self.mpr (length_filter_eq_length_iff.mp hquiet.1)

lemma DeadlockInvariant.threadsStep (hworld : DeadlockInvariant limits world)
    (hact : Effect limits world event after) : ThreadsMatch after := by
  have hth := hworld.threads
  have hsp : ∀ waiter, Spent world.table waiter → Spent after.table waiter :=
    fun waiter hsp => hsp.step hact
  have hen : ∀ waiter, event.Ends waiter → Spent after.table waiter :=
    fun waiter hen => hact.spent_of_ends hworld.base.records hen
  cases hact with
  | refused | unacknowledged | ignored => exact hth
  | applied request result _ _ _ _ hap | granted request waiter result _ _ _ hap =>
    obtain ⟨_, rfl⟩ := hap
    exact hth.shrink (by simp) (Within.refl _) hsp fun waiter hin hnt => absurd hin hnt
  | waits request waiter had hf hop =>
    exact hth.register (hth.unused had hf hop) hop
  | stopped => exact hth.remove
  | resumed table result earlier later thread _ _ hap =>
    obtain ⟨_, rfl⟩ := hap
    refine hth.remove.shrink (by simp) (Within.refl _) ?_ fun waiter hin hnt => absurd hin hnt
    exact fun waiter hol => ⟨hol.1, Fenced.granted hol.2 thread.waiter⟩
  | waitsAgain table earlier later thread hrs hop =>
    exact hth.refresh hrs.entry hop
  | known =>
    exact hth.shrink (fun _ => rfl) (Within.refl _) hsp fun waiter hin hnt => absurd hin hnt
  | cancelled waiter waiting =>
    refine hth.shrink (by simp) (Within.erase _ _) hsp ?_
    intro other hin hnt
    by_cases heq : waiter = other
    · exact hen other heq
    · exact absurd (by simp [cancelled, unregister, heq, hin]) hnt
  | cancelledEarly =>
    exact hth.shrink (by simp) (Within.refl _) hsp fun waiter hin hnt => absurd hin hnt
  | acknowledged waiter =>
    have hm : ThreadsMatch ⟨retired world.table waiter, world.threads.map (.notify false)⟩ :=
      hth.shrink (fun _ => rfl) (Within.refl _) hsp fun waiter hin hnt => absurd hin hnt
    simpa using hm
  | released kind owner =>
    exact hth.shrink releaseOwner_quiet (Within.refl _) hsp fun waiter hin hnt => absurd hin hnt
  | dropped session hlv =>
    exact hth.shrink (releaseSession_quiet hlv)
      (dropSession_within session) hsp
      fun waiter hin hnt => dropSession_spent hworld.base.records hin hnt
  | invalidated =>
    refine hth.shrink (by simp) ?_ hsp ?_
    · intro waiter waiting he
      simp [invalidate] at he
    · exact fun waiter _ hnt => ⟨hnt, .inl rfl⟩

lemma registered_waitsOn (hwaits : WaitsOn (registered state request waiter).waiters first second) :
    WaitsOn state.waiters first second ∨
      first = request.owner ∧ second ∈ blockingOwners state.locks request := by
  obtain ⟨other, waiting, he, how, hbl⟩ := hwaits
  rw [registered_waiters] at he
  split at he
  · cases he
    exact .inr ⟨how.symm, hbl⟩
  · exact .inl ⟨other, waiting, he, how, hbl⟩

lemma refreshed_waitsOn
    (howned : ∀ waiting, state.waiters[waiter]? = some waiting → waiting.owner = request.owner)
    (hwaits : WaitsOn (refreshed state request waiter).waiters first second) :
    WaitsOn state.waiters first second ∨
      first = request.owner ∧ second ∈ blockingOwners state.locks request := by
  obtain ⟨other, waiting, he, hon, hbl⟩ := hwaits
  rw [refreshed_waiters] at he
  split at he
  · obtain ⟨old, hol, rfl⟩ := Option.map_eq_some_iff.mp he
    refine .inr ⟨?_, hbl⟩
    rw [← hon]
    exact howned old hol
  · exact .inl ⟨other, waiting, he, hon, hbl⟩

lemma safe_blockers (hsafe : wouldDeadlock state.waiters request.owner
      (blockingOwners state.locks request) = false) :
    ∀ blocker ∈ blockingOwners state.locks request,
      ¬ Relation.ReflTransGen (WaitsOn state.waiters) blocker request.owner := by
  intro blocker hbl hre
  rw [← Bool.not_eq_true, wouldDeadlock_iff] at hsafe
  exact hsafe ⟨blocker, hbl, hre⟩

lemma DeadlockInvariant.acyclicStep (hworld : DeadlockInvariant limits world)
    (hact : Effect limits world event after) : Acyclic (WaitsOn after.table.waiters) := by
  have hac := hworld.acyclic
  cases hact with
  | refused | unacknowledged | ignored | known | cancelledEarly | acknowledged
  | released => exact hac
  | applied request result _ _ _ _ hap | granted request waiter result _ _ _ hap =>
    obtain ⟨_, rfl⟩ := hap
    exact hac
  | waits request waiter _ _ _ hsf =>
    exact hac.add_edges (fun _ _ => registered_waitsOn) (safe_blockers hsf)
  | stopped | cancelled => exact hac.mono (Within.erase _ _).waitsOn
  | resumed table result earlier later thread _ _ hap =>
    obtain ⟨_, rfl⟩ := hap
    exact hac.mono (Within.erase _ _).waitsOn
  | waitsAgain table earlier later thread _ _ hsf =>
    have how : ∀ waiting, table.waiters[thread.waiter]? = some waiting →
        waiting.owner = thread.request.owner := fun waiting he =>
      (hworld.threads.entry thread (by simp) waiting he).1
    exact hac.add_edges (fun _ _ => refreshed_waitsOn how) (safe_blockers hsf)
  | dropped session => exact hac.mono (dropSession_within session).waitsOn
  | invalidated =>
    exact (@DeadlockInvariant.initial limits).acyclic

lemma DeadlockInvariant.step (hworld : DeadlockInvariant limits world)
    (hact : Effect limits world event after) (hagree : event.SessionsAgree) :
    DeadlockInvariant limits after where
  base := hworld.base.step hact hagree
  threads := hworld.threadsStep hact
  acyclic := hworld.acyclicStep hact

lemma DeadlockInvariant.run (hrun : Run (Step limits) {} events world)
    (hagree : ∀ event ∈ events, event.SessionsAgree) : DeadlockInvariant limits world := by
  induction hrun with
  | refl => exact .initial
  | snoc _ last ih =>
    simp only [mem_append, mem_singleton] at hagree
    have hb := ih fun event hev => hagree event (.inl hev)
    exact hb.step last.effect (hagree _ (.inr rfl))

lemma pairWaitsOn_acyclic (hacyclic : Acyclic (WaitsOn waiters)) :
    Acyclic (PairWaitsOn waiters) := by
  intro node hcy
  apply hacyclic node.2
  refine hcy.lift Prod.snd ?_
  rintro first second ⟨waiter, waiting, he, _, how, _, hbl⟩
  exact ⟨waiter, waiting, he, how, hbl⟩

/-- In every reachable state, where waiters' ids are of their owners' sessions:
the wait-for relation is acyclic, between owners and within each kind; an entry
whose thread was not notified since it last looked still conflicts with a lock
and names its current blockers; an attempt, or a thread that goes on, returns
`Deadlock` exactly when one of its blockers reaches it between owners; and the
search ends on every table. -/
theorem deadlocks_detected (limits : LockTableLimits) {events : List Event} {world : World}
    (hrun : Run (Step limits) {} events world) (hagree : ∀ event ∈ events, event.SessionsAgree) :
    Acyclic (PairWaitsOn world.table.waiters) ∧ Acyclic (WaitsOn world.table.waiters) ∧
    (∀ (waiter : LockWaiterId) (waiting : WaitingLock),
      world.table.waiters[waiter]? = some waiting →
      ∃ thread ∈ world.threads, thread.waiter = waiter ∧ thread.request.owner = waiting.owner ∧
        thread.request.kind = waiting.kind ∧ (thread.signalled = false →
          (∃ lock ∈ world.table.locks, conflicts lock thread.request = true) ∧
          waiting.blockers = blockingOwners world.table.locks thread.request)) ∧
    (∀ request waiter, (setlkBlocking limits world.table request waiter).result =
          some (.error .deadlock) ↔
        Admitted world.table request waiter ∧ waiter ∉ world.table.waiters ∧
          ClosesCycle world.table request) ∧ (∀ thread ∈ world.threads,
      (resumeWaiter limits world.table thread.request thread.waiter).result =
          some (.error .deadlock) ↔ isInterrupted world.table thread.request thread.waiter = false ∧
          ClosesCycle world.table thread.request) ∧ ∀ (waiters : Waiters) owner blockers,
      (deadlockSearch waiters owner blockers).isSome = true := by
  have hworld := DeadlockInvariant.run hrun hagree
  refine ⟨pairWaitsOn_acyclic hworld.acyclic, hworld.acyclic, ?_,
    fun _ _ => setlkBlocking_deadlock_iff,
    fun _ _ => resumeWaiter_deadlock_iff, ?_⟩
  · intro waiter waiting hrow
    obtain ⟨thread, hfiber, rfl⟩ := hworld.threads.owned waiter (mem_iff_entry.mpr ⟨waiting, hrow⟩)
    obtain ⟨hown, hkind, hnew⟩ := hworld.threads.entry thread hfiber waiting hrow
    refine ⟨thread, hfiber, rfl, hown.symm, hkind.symm, fun hquiet => ?_⟩
    obtain ⟨hopposed, hblockers⟩ := hnew hquiet
    exact ⟨opposed_conflicts hopposed, hblockers⟩
  · intro waiters owner blockers
    obtain ⟨found, seen, hsearch, _⟩ := @deadlockSearch_eq waiters owner blockers
    rw [hsearch]
    rfl

/-! ## Runs -/

/-- Session `a` holds a flock and session `b` a POSIX lock. -/
def heldWorld : World :=
  let flocked := ({} : World).leave (setlkNonblocking sampleLimits {}
    (sampleRequest "a" .flock .write 0 9))
  flocked.leave (setlkNonblocking sampleLimits flocked.table (sampleRequest "b" .posix .write 0 9))

/-- Then `a` waits for the POSIX lock of `b`. -/
def waitingWorld : World :=
  heldWorld.attempt sampleLimits (sampleRequest "a" .posix .write 0 9) (sampleWaiter "a")

lemma waitingWorld_run : ∃ events, Run (Step sampleLimits) {} events
    waitingWorld ∧ ∀ event ∈ events, event.SessionsAgree := by
  refine ⟨_, .snoc (.snoc (.snoc (.refl _) (.setlk _ _)) (.setlk _ _)) (.attempt _ _ _), ?_⟩
  simp [Event.SessionsAgree, sampleRequest, sampleOwner, sampleWaiter]

theorem waitingWorld_detected : waitingWorld.table.waiters[sampleWaiter "a"]? =
      some ⟨sampleOwner "a", .posix, [sampleOwner "b"]⟩ ∧
    Acyclic (WaitsOn waitingWorld.table.waiters) ∧
    ClosesCycle waitingWorld.table (sampleRequest "b" .flock .read 5 5) := by
  obtain ⟨events, hrun, hagree⟩ := waitingWorld_run
  obtain ⟨_, hacyclic, _, hdeadlock, _⟩ := deadlocks_detected sampleLimits hrun hagree
  refine ⟨by decide +kernel, hacyclic, ?_⟩
  exact ((hdeadlock (sampleRequest "b" .flock .read 5 5) (sampleWaiter "b")).mp
    (by decide +kernel)).2.2

/-- A flock request of `b` is refused as a deadlock, though `a` waits for `b`
only through a POSIX lock. -/
theorem deadlock_across_kinds : (∃ events, Run (Step sampleLimits) {} events waitingWorld ∧
      ∀ event ∈ events, event.SessionsAgree) ∧ (setlkBlocking sampleLimits waitingWorld.table
      (sampleRequest "b" .flock .read 5 5) (sampleWaiter "b")).result = some (.error .deadlock) ∧
    ¬ ∃ blocker ∈ blockingOwners waitingWorld.table.locks
        (sampleRequest "b" .flock .read 5 5),
      Relation.ReflTransGen (PairWaitsOn waitingWorld.table.waiters)
        (.flock, blocker) (.flock, sampleOwner "b") := by
  refine ⟨waitingWorld_run, by decide +kernel, ?_⟩
  rintro ⟨blocker, hblock, hreach⟩
  have hkinds : ∀ entry ∈ waitingWorld.table.waiters.toList, entry.2.kind = .posix := by
    decide +kernel
  have hblockers : blockingOwners waitingWorld.table.locks
      (sampleRequest "b" .flock .read 5 5) = [sampleOwner "a"] := by
    decide +kernel
  rw [hblockers, mem_singleton] at hblock
  rcases Relation.ReflTransGen.cases_head hreach with heq | ⟨_, hedge, _⟩
  · rw [hblock] at heq
    exact absurd heq (by decide)
  · obtain ⟨waiter, waiting, hrow, hkind, _⟩ := hedge
    rw [← mem_toList_iff_getElem?_eq_some] at hrow
    have hposix := hkinds (waiter, waiting) hrow
    rw [hkind] at hposix
    cases hposix

end AgentDx.Locks
