import AgentDx.Locks.System

/-!
# Exclusion, and the byte map of a table

Every reachable table is canonical and exclusive and holds no more locks than
its limit.  Over such tables a request that succeeds sets exactly the bytes it
asks about, a request that fails changes no lock, and a query answers what the
same request would meet.
-/

namespace AgentDx.Locks

open Std Segments Transition List

/-! ## What a step does to the locks -/

/-- The request that a step applied to the table. -/
def Event.applied : Event → Option LockRequest
  | .setlk request (.ok ()) => some request
  | .attempt request _ (some (.ok ())) => some request
  | .resume request _ (some (.ok ())) => some request
  | _ => none

inductive LocksChange (limits : LockTableLimits) (before after : LockTableState)
    (event : Event) : Prop where
  | kept (idle : event.applied = none) (same : after.locks = before.locks)
  | released (idle : event.applied = none) (returns : ¬ event.Fails)
      (fewer : after.locks.Sublist before.locks)
  | applied (request) (applies : event.applied = some request) (returns : ¬ event.Fails)
      (range : request.range.Valid) (unopposed : Unopposed before.locks request)
      (room : after.locks.length ≤ limits.maxLocks)
      (result : after.locks = (candidate before request).1)

/-- A waiting request had a valid range when it arrived. -/
def World.Ranged (world : World) : Prop := ∀ thread ∈ world.threads, thread.request.range.Valid

variable {limits : LockTableLimits} {world after : World} {event : Event}

@[simp]
lemma closeSession_locks (state session) :
    (closeSession limits state session).locks = state.locks := by
  unfold closeSession
  split
  · rfl
  · split <;> rfl

lemma Event.applied_of_fails (hfails : event.Fails) : event.applied = none := by
  unfold Event.Fails at hfails
  split at hfails <;> first | rfl | cases hfails

lemma Effect.locksChange (hact : Effect limits world event after)
    (hranged : world.Ranged) : LocksChange limits world.table after.table event := by
  cases hact with
  | refused event hfa => exact .kept (Event.applied_of_fails hfa) rfl
  | applied request applied hrg _ _ hun hap =>
    obtain ⟨hrm, rfl⟩ := hap
    exact .applied request rfl (fun hfa => hfa) hrg hun hrm rfl
  | granted request waiter applied had _ hun hap =>
    obtain ⟨hrm, rfl⟩ := hap
    exact .applied request rfl (fun hfa => hfa) had.range hun hrm rfl
  | resumed table applied earlier later thread _ hun hap =>
    obtain ⟨hrm, rfl⟩ := hap
    exact .applied thread.request rfl (fun hfa => hfa) (hranged thread (by simp)) hun hrm rfl
  | released kind owner =>
    refine .released ?_ ?_ filter_sublist
    · cases kind <;> rfl
    · cases kind <;> exact fun hfa => hfa
  | dropped session =>
    refine .released rfl (fun hfa => hfa) ?_
    rw [closeSession_locks]
    exact filter_sublist
  | invalidated =>
    exact .released rfl (fun hfa => hfa) (nil_sublist _)
  | waits | stopped | waitsAgain | known | cancelled | cancelledEarly
  | unacknowledged | acknowledged | ignored => exact .kept rfl rfl

/-! ## Threads -/

lemma Effect.threads (hact : Effect limits world event after) (hfiber : thread ∈ after.threads) :
    (∃ old ∈ world.threads, thread.request = old.request ∧ thread.waiter = old.waiter) ∨
      Admitted world.table thread.request thread.waiter ∧
        event = .attempt thread.request thread.waiter none := by
  cases hact with
  | waits request waiter had =>
    rcases mem_cons.mp hfiber with rfl | hol
    · exact .inr ⟨had, rfl⟩
    · exact .inl ⟨thread, hol, rfl, rfl⟩
  | stopped table earlier later woken =>
    refine .inl ⟨thread, ?_, rfl, rfl⟩
    simp only [mem_append, mem_cons] at hfiber ⊢
    tauto
  | resumed table applied earlier later woken =>
    obtain ⟨old, hol, rfl⟩ := mem_map.mp hfiber
    refine .inl ⟨old, ?_, rfl, rfl⟩
    simp only [mem_append, mem_cons] at hol ⊢
    tauto
  | waitsAgain table earlier later woken =>
    rcases mem_cons.mp hfiber with rfl | hol
    · exact .inl ⟨woken, by simp, rfl, rfl⟩
    · refine .inl ⟨thread, ?_, rfl, rfl⟩
      simp only [mem_append, mem_cons] at hol ⊢
      tauto
  | refused | unacknowledged | acknowledged | ignored =>
    exact .inl ⟨thread, hfiber, rfl, rfl⟩
  | applied | granted | known | cancelled | cancelledEarly | released | dropped
  | invalidated =>
    obtain ⟨old, hol, rfl⟩ := mem_map.mp hfiber
    exact .inl ⟨old, hol, rfl, rfl⟩

lemma World.Ranged.step (hranged : world.Ranged)
    (hact : Effect limits world event after) : after.Ranged := by
  intro thread hth
  rcases hact.threads hth with ⟨old, hol, hrq, _⟩ | ⟨had, _⟩
  · rw [hrq]
    exact hranged old hol
  · exact had.range

/-! ## The invariant of the locks -/

structure LocksInvariant (limits : LockTableLimits) (world : World) : Prop where
  ranged : world.Ranged
  canonical : Canonical world.table.locks
  exclusive : Exclusive world.table.locks
  room : world.table.locks.length ≤ limits.maxLocks

lemma LocksInvariant.initial : LocksInvariant limits {} where
  ranged := by simp [World.Ranged]
  canonical := Canonical.nil
  exclusive := Exclusive.nil
  room := Nat.zero_le _

lemma LocksInvariant.step (hworld : LocksInvariant limits world)
    (hact : Effect limits world event after) : LocksInvariant limits after := by
  have hrn := hworld.ranged.step hact
  cases hact.locksChange hworld.ranged with
  | kept _ heq =>
    exact ⟨hrn, heq ▸ hworld.canonical, heq ▸ hworld.exclusive, heq ▸ hworld.room⟩
  | released _ _ hfw =>
    exact ⟨hrn, hworld.canonical.sublist hfw, hworld.exclusive.sublist hfw,
      hfw.length_le.trans hworld.room⟩
  | applied request _ _ hrg hun hrm hrs =>
    refine ⟨hrn, ?_, ?_, hrm⟩
    · rw [hrs]
      exact hworld.canonical.candidate hrg
    · rw [hrs]
      exact hworld.exclusive.candidate hworld.canonical hrg hun

lemma LocksInvariant.run
    (hrun : Run (Step limits) {} events world) : LocksInvariant limits world :=
  hrun.invariant (fun hb hst => hb.step hst.effect) .initial

/-- In every reachable table overlapping locks of one kind held by different
owners are read locks, the segments of one owner are valid, disjoint and never
of one type where they touch, and the limit on their number holds. -/
theorem locks_exclusive_and_canonical (limits : LockTableLimits)
    {events : List Event} {world : World} (hrun : Run (Step limits) {} events world) :
    (∀ first ∈ world.table.locks, ∀ second ∈ world.table.locks,
      first.kind = second.kind → first.owner ≠ second.owner →
      overlaps first.range second.range = true → first.lockType = .read ∧ second.lockType = .read) ∧
    (∀ lock ∈ world.table.locks, isValid lock.range = true) ∧
    (world.table.locks.Pairwise fun first second =>
      first.kind = second.kind → first.owner = second.owner →
        overlaps first.range second.range = false ∧
        (first.lockType = second.lockType → touchesOrOverlaps first.range second.range = false)) ∧
    world.table.locks.length ≤ limits.maxLocks := by
  have hworld := LocksInvariant.run hrun
  have hok := hworld.canonical.valid
  refine ⟨?_, fun lock hlock => isValid_iff.mpr (hok lock hlock), ?_, hworld.room⟩
  · intro first hone second htwo hkind hown hmeet
    rw [overlaps_iff, Segment.overlaps_iff (hok first hone) (hok second htwo)] at hmeet
    obtain ⟨byte, hspan, hcovers'⟩ := hmeet
    exact hworld.exclusive hown ⟨first, hone, rfl, rfl, rfl, hspan⟩
      ⟨second, htwo, hkind.symm, rfl, rfl, hcovers'⟩
  · refine hworld.canonical.apart.imp_of_mem ?_
    intro first second hone htwo hapart hkind hown
    have hfar : first.lockType = second.lockType →
        touchesOrOverlaps first.range second.range = false := by
      intro htype
      rw [← Bool.not_eq_true, touchesOrOverlaps_iff]
      exact hapart ⟨hkind, hown, htype⟩
    refine ⟨?_, hfar⟩
    rw [← Bool.not_eq_true]
    intro hmeet
    rw [overlaps_iff] at hmeet
    obtain ⟨byte, hspan, hcovers'⟩ :=
      (Segment.overlaps_iff (hok first hone) (hok second htwo)).mp hmeet
    have htype : first.lockType = second.lockType :=
      hworld.canonical.single ⟨first, hone, rfl, rfl, rfl, hspan⟩
        ⟨second, htwo, hkind.symm, hown.symm, rfl, hcovers'⟩
    exact hapart ⟨hkind, hown, htype⟩ (.inl hmeet)

/-- A downgrade in the middle of a write lock, shared with another owner. -/
def sharedWorld : World :=
  let written := ({} : World).leave (setlkNonblocking sampleLimits {}
    (sampleRequest "a" .posix .write 10 20))
  let split := written.leave (setlkNonblocking sampleLimits written.table
    (sampleRequest "a" .posix .read 13 15))
  split.leave (setlkNonblocking sampleLimits split.table (sampleRequest "b" .posix .read 14 15))

lemma sharedWorld_run : ∃ events, Run (Step sampleLimits) {} events sharedWorld :=
  ⟨_, .snoc (.snoc (.snoc (.refl _) (.setlk _ _)) (.setlk _ _)) (.setlk _ _)⟩

theorem sharedWorld_exclusive_and_canonical : sharedWorld.table.locks.length = 4 ∧
    (∀ first ∈ sharedWorld.table.locks, ∀ second ∈ sharedWorld.table.locks,
      first.kind = second.kind → first.owner ≠ second.owner →
      overlaps first.range second.range = true → first.lockType = .read ∧ second.lockType = .read) ∧
    sharedWorld.table.locks.length ≤ sampleLimits.maxLocks := by
  obtain ⟨events, hrun⟩ := sharedWorld_run
  obtain ⟨hexclusive, _, _, hroom⟩ := locks_exclusive_and_canonical sampleLimits hrun
  exact ⟨by decide +kernel, hexclusive, hroom⟩

/-! ## The byte map -/

/-- The type of the lock that an owner holds at a byte. -/
def byteMap (locks : List ActiveLock) (kind : FileLockKind)
    (owner : FileLockOwner) (byte : Offset) : Option FileLockType :=
  (locks.find? fun lock =>
    lock.kind = kind ∧ lock.owner = owner ∧ lock.range.Covers byte).map ActiveLock.lockType

/-- What a request of this type leaves at a byte. -/
def FileLockType.held : FileLockType → Option FileLockType
  | .read => some .read
  | .write => some .write
  | .unlock => none

instance (request : LockRequest) (kind : FileLockKind) (owner : FileLockOwner)
    (byte : Offset) : Decidable (Asks request kind owner byte) :=
  inferInstanceAs (Decidable (_ ∧ _ ∧ _))

variable {locks : List ActiveLock} {kind : FileLockKind}
  {owner : FileLockOwner} {byte : Offset} {lockType : FileLockType}

lemma byteMap_eq_some (hlocks : Canonical locks) :
    byteMap locks kind owner byte = some lockType ↔ Holds locks kind owner lockType byte := by
  constructor
  · intro hmp
    obtain ⟨lock, hfn, hty⟩ := Option.map_eq_some_iff.mp hmp
    have hfi := find?_some hfn
    simp only [decide_eq_true_eq] at hfi
    exact ⟨lock, mem_of_find?_eq_some hfn, hfi.1, hfi.2.1, hty, hfi.2.2⟩
  · rintro ⟨lock, hlc, hkn, how, hty, hcv⟩
    have hsm : (locks.find? fun lock => lock.kind = kind ∧
        lock.owner = owner ∧ lock.range.Covers byte).isSome := by
      rw [find?_isSome]
      exact ⟨lock, hlc, by simp [hkn, how, hcv]⟩
    obtain ⟨found, hfn⟩ := Option.isSome_iff_exists.mp hsm
    have hfi := find?_some hfn
    simp only [decide_eq_true_eq] at hfi
    have heq : found.lockType = lockType :=
      hlocks.single ⟨found, mem_of_find?_eq_some hfn, hfi.1,
        hfi.2.1, rfl, hfi.2.2⟩ ⟨lock, hlc, hkn, how, hty, hcv⟩
    rw [byteMap, hfn, Option.map_some, heq]

lemma FileLockType.held_eq_some :
    given.held = some lockType ↔ lockType = given ∧ lockType ≠ .unlock := by
  cases given <;> cases lockType <;> simp [held]

lemma byteMap_candidate (hlocks : Canonical state.locks) (hrange : request.range.Valid) :
    byteMap (candidate state request).1 kind owner byte =
      if Asks request kind owner byte then request.lockType.held
      else byteMap state.locks kind owner byte := by
  apply Option.ext
  intro lockType
  rw [byteMap_eq_some (hlocks.candidate hrange), holds_candidate hlocks hrange]
  split
  next hask =>
    rw [FileLockType.held_eq_some]
    simp [hask]
  next hot =>
    rw [byteMap_eq_some hlocks]
    simp [hot]

/-! ## Queries -/

/-- For a session that the table admits, a query reports a conflict exactly
where the request would be refused for one. -/
lemma getlk_iff_wouldBlock
    (hpass : request.lockType = .unlock ∨ Admits state request.owner.ingressSessionId) :
    (∃ conflict, getlk state request = .ok (some conflict)) ↔
      (setlkNonblocking limits state request).result = .error .wouldBlock := by
  have hss : ¬ (request.lockType ≠ .unlock ∧
      request.owner.ingressSessionId ∈ state.closedSessions) :=
    fun hcl => (hpass.resolve_left hcl.1).1 hcl.2
  have ham : ¬ (request.lockType ≠ .unlock ∧ state.closedSessionAdmissionClosed = true) := by
    rintro ⟨hlk, hcl⟩
    rw [(hpass.resolve_left hlk).2] at hcl
    cases hcl
  unfold getlk setlkNonblocking
  cases hvl : validateRange request.range with
  | error error =>
    have her : error = .invalidRange := by
      unfold validateRange at hvl
      split at hvl
      · cases hvl
      · cases hvl
        rfl
    simp [her, refuse]
  | ok =>
    simp only
    by_cases hin : state.invalidated
    · simp [hin, refuse]
    rw [if_neg hin, if_neg hin, if_neg hss, if_neg ham]
    cases hcn : firstConflict state.locks request with
    | some lock =>
      have hlk : request.lockType ≠ .unlock := by
        intro hun
        simp [firstConflict, hun] at hcn
      rw [if_pos ⟨hlk, rfl⟩]
      exact iff_of_true ⟨lock.conflict, rfl⟩ rfl
    | none =>
      rw [if_neg (by simp)]
      refine iff_of_false (by simp) ?_
      cases hap : applyLock limits state request with
      | error error => simp [refuse, applyLock_error hap]
      | ok applied => simp

lemma getlk_ok (hrange : isValid request.range = true) (hlive : state.invalidated = false) :
    getlk state request = .ok ((firstConflict state.locks request).map ActiveLock.conflict) := by
  simp [getlk, validateRange, hrange, hlive]

/-! ## The refinement -/

/-- Over a reachable table, a request that succeeds sets exactly the bytes it
asks about, an error leaves the locks as they are, and where the table admits
the session of a request a query reports no conflict exactly when the request
would not be refused for one. -/
theorem setlk_refines_byteMap (limits : LockTableLimits) {events : List Event} {world : World}
    (hrun : Run (Step limits) {} events world) : (∀ event after, Step limits world event after →
      (∀ request, event.applied = some request → ∀ kind owner byte,
        byteMap after.table.locks kind owner byte =
          if Asks request kind owner byte then request.lockType.held
          else byteMap world.table.locks kind owner byte) ∧
      (event.Fails → after.table.locks = world.table.locks)) ∧
    ∀ request, (request.lockType = .unlock ∨ Admits world.table request.owner.ingressSessionId) →
      ((∀ conflict, getlk world.table request ≠ .ok (some conflict)) ↔
        (setlkNonblocking limits world.table request).result ≠ .error .wouldBlock) ∧
      (isValid request.range = true → world.table.invalidated = false →
        (getlk world.table request = .ok none ↔
          (setlkNonblocking limits world.table request).result ≠ .error .wouldBlock)) := by
  have hworld := LocksInvariant.run hrun
  refine ⟨fun event after hstep => ?_, fun request hpass => ?_⟩
  · cases hstep.effect.locksChange hworld.ranged with
    | kept hidle heq =>
      exact ⟨fun request happlied => by simp [hidle] at happlied, fun _ => heq⟩
    | released hidle hreturns =>
      exact ⟨fun request happlied => by simp [hidle] at happlied,
        fun hfails => absurd hfails hreturns⟩
    | applied request happlies hreturns hrange _ _ hout =>
      refine ⟨?_, fun hfails => absurd hfails hreturns⟩
      intro asked happlied kind owner byte
      obtain rfl : request = asked := by simpa [happlies] using happlied
      rw [hout]
      exact byteMap_candidate hworld.canonical hrange
  · have hreports := @getlk_iff_wouldBlock limits _ _ hpass
    refine ⟨by rw [← not_exists, hreports], fun hrange hlive => ?_⟩
    rw [ne_eq, ← hreports, getlk_ok hrange hlive]
    cases firstConflict world.table.locks request <;> simp

def unlockRest : LockRequest := sampleRequest "a" .posix .unlock 12 endOfFile

def unlockedWorld : World :=
  sharedWorld.leave (setlkNonblocking sampleLimits sharedWorld.table unlockRest)

theorem unlockedWorld_refines_byteMap :
    byteMap sharedWorld.table.locks .posix (sampleOwner "a") 14 = some .read ∧
    byteMap unlockedWorld.table.locks .posix (sampleOwner "a") 14 = none ∧
    byteMap unlockedWorld.table.locks .posix (sampleOwner "a") 11 = some .write ∧
    byteMap unlockedWorld.table.locks .posix (sampleOwner "b") 14 = some .read := by
  obtain ⟨events, hrun⟩ := sharedWorld_run
  have happlied : Event.applied (.setlk unlockRest (setlkNonblocking sampleLimits
      sharedWorld.table unlockRest).result) = some unlockRest := by
    decide +kernel
  have hbytes := ((setlk_refines_byteMap sampleLimits hrun).1 _ unlockedWorld
    (.setlk sharedWorld unlockRest)).1 unlockRest happlied
  rw [hbytes, hbytes, hbytes]
  decide +kernel

/-- A session that was released still asks about the locks of others. -/
def releasedWorld : World :=
  let written := ({} : World).leave (setlkNonblocking sampleLimits {}
    (sampleRequest "a" .posix .write 0 9))
  written.leave (releaseSession sampleLimits written.table "b")

/-- A query of a released session reports the conflict, but its request is
turned away before conflicts are looked at. -/
theorem released_session_query_reports_conflict :
    (∃ events, Run (Step sampleLimits) {} events releasedWorld) ∧
    getlk releasedWorld.table (sampleRequest "b" .posix .read 5 5) ≠ .ok none ∧
    (setlkNonblocking sampleLimits releasedWorld.table
      (sampleRequest "b" .posix .read 5 5)).result ≠ .error .wouldBlock := by
  refine ⟨⟨_, .snoc (.snoc (.refl _) (.setlk _ _)) (.releaseSession _ _)⟩, ?_⟩
  decide +kernel

/-! ## Representation -/

variable {locks more : List ActiveLock} {lock piece : ActiveLock}

lemma Canonical.eq_of_near (hcanon : Canonical locks) (hlock : lock ∈ locks) (hpiece : piece ∈ locks)
    (hsame : SameClass lock piece) (hnear : Segment.Near lock.range piece.range) : lock = piece := by
  have hsy : Symm fun first second : ActiveLock =>
      SameClass first second → ¬ Segment.Near first.range second.range :=
    ⟨fun _ _ hap hsm hns => hap hsm.symm (hns.imp And.symm Or.symm)⟩
  by_contra hne
  exact hcanon.apart.forall hlock hpiece hne hsame hnear

lemma Canonical.covered (hcanon : Canonical locks) (hrange : lock.range.Valid)
    (hheld : ∀ byte, lock.range.Covers byte → Holds locks lock.kind lock.owner lock.lockType byte) :
    ∃ piece ∈ locks, SameClass lock piece ∧ piece.range.start ≤ lock.range.start ∧
      lock.range.stop ≤ piece.range.stop := by
  obtain ⟨piece, hpc, hkn, how, hty, hcv⟩ := hheld lock.range.start ⟨le_rfl, hrange⟩
  refine ⟨piece, hpc, ⟨hkn.symm, how.symm, hty.symm⟩, hcv.1, ?_⟩
  by_contra hlt
  replace hlt := lt_of_not_ge hlt
  have hsc := Order.covBy_succ_of_not_isMax hlt.not_isMax
  -- The byte after the segment is held too, by a segment that touches it.
  obtain ⟨next, hnx, hkn', how', hty', hcv'⟩ := hheld (Order.succ piece.range.stop)
    ⟨hcv.2.trans hsc.le, Order.succ_le_of_lt hlt⟩
  have hnr : Segment.Near piece.range next.range := by
    by_contra hfr
    rcases (Segment.not_near_iff (hcanon.valid _ hpc) (hcanon.valid _ hnx)).mp hfr with
      ⟨byte, hlw, hhg⟩ | ⟨byte, hlw, hhg⟩
    · exact hsc.2 hlw (hhg.trans_le hcv'.1)
    · exact ((hsc.lt.trans_le hcv'.2).trans (hlw.trans hhg)).not_ge (hcanon.valid _ hpc)
  have heq := hcanon.eq_of_near hpc hnx ⟨hkn.trans hkn'.symm, how.trans how'.symm,
    hty.trans hty'.symm⟩ hnr
  rw [← heq] at hcv'
  exact hsc.lt.not_ge hcv'.2

/-- Whatever was asked in two runs, tables that hold the same bytes have the same
segments. -/
theorem bytes_determine_segments {limits bounds : LockTableLimits} {events others : List Event}
    {world other : World} (hrun : Run (Step limits) {} events world)
    (hother : Run (Step bounds) {} others other)
    (hbytes : byteMap world.table.locks = byteMap other.table.locks) :
    ∀ lock ∈ world.table.locks, ∃ twin ∈ other.table.locks,
      SameClass lock twin ∧ lock.range = twin.range := by
  intro lock hlc
  have hlk := (LocksInvariant.run hrun).canonical
  have hmr := (LocksInvariant.run hother).canonical
  have hhd {kind owner lockType byte} : Holds world.table.locks kind owner lockType byte ↔
      Holds other.table.locks kind owner lockType byte := by
    rw [← byteMap_eq_some hlk, ← byteMap_eq_some hmr, hbytes]
  have hvl := hlk.valid lock hlc
  obtain ⟨twin, htw, hcl, hst, hen⟩ := hmr.covered hvl
    fun byte hcv => hhd.mp ⟨lock, hlc, rfl, rfl, rfl, hcv⟩
  obtain ⟨outer, hot, hco, hos, hoe⟩ := hlk.covered (hmr.valid twin htw)
    fun byte hcv => hhd.mpr ⟨twin, htw, rfl, rfl, rfl, hcv⟩
  -- The twin lies within a segment of the first table, which can only be the lock.
  obtain rfl := hlk.eq_of_near hlc hot
    ⟨hcl.1.trans hco.1, hcl.2.1.trans hco.2.1, hcl.2.2.trans hco.2.2⟩
    (.inl ⟨hvl.trans (hen.trans hoe), (hos.trans hst).trans hvl⟩)
  exact ⟨twin, htw, hcl, Segment.ext (hos.antisymm hst) (hen.antisymm hoe)⟩

/-- Two requests, one after the other. -/
def pairWorld (first second : LockRequest) : World :=
  let earlier := ({} : World).leave (setlkNonblocking sampleLimits {} first)
  earlier.leave (setlkNonblocking sampleLimits earlier.table second)

theorem halves_have_one_segment :
    let lower := sampleRequest "a" .posix .write 0 4
    let upper := sampleRequest "a" .posix .write 5 9
    ∀ lock ∈ (pairWorld lower upper).table.locks, ∃ twin ∈ (pairWorld upper lower).table.locks,
      SameClass lock twin ∧ lock.range = twin.range :=
  @bytes_determine_segments sampleLimits sampleLimits _ _ _ _
    (.snoc (.snoc (.refl _) (.setlk _ _)) (.setlk _ _))
    (.snoc (.snoc (.refl _) (.setlk _ _)) (.setlk _ _)) (congrArg byteMap (by decide +kernel))

end AgentDx.Locks
