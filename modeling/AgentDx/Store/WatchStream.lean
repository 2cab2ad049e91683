import AgentDx.Store.Watch

/-!
# The watch stream is complete

The retained events are the published ones above the compaction watermark, in
order.  A reply takes them from the cursor up to the end of some revision, so what
a consumer received is at all times what was published up to its cursor.  It is
given more as long as nothing above its cursor was compacted away and the next
revision fits a reply.
-/

namespace AgentDx.Store

open List hiding next after keys
open Dfs Std Word Cut Transition Result

lemma WatchEvent.precedes.revision_le {left : WatchEvent} {right}
    (hprecedes : left.precedes right) : left.revision ≤ right.revision := by
  rcases hprecedes with hless | ⟨hequal, _⟩
  · exact hless.le
  · exact hequal.le

/-! ## What a commit publishes -/

variable {start : ℕ} {events : List WatchEvent} {state prepared : State}

section Commit

lemma captureEvents_numbered
    [Codec] (hcap : captureEvents revisionAfter start offset events pool = .ok (next, changes)) :
    (∀ event ∈ events, event.revision = revisionAfter) ∧
      (∀ event ∈ events, start + offset ≤ event.eventIndex) ∧
      events.Pairwise WatchEvent.precedes := by
  induction events generalizing offset pool next changes with
  | nil => simp
  | cons event events ih =>
    obtain ⟨_, hnumber, hcap⟩ := bind_eq_ok.mp hcap
    obtain ⟨_, _, hcap⟩ := bind_eq_ok.mp hcap
    obtain ⟨⟨_, _⟩, htail, _⟩ := bind_eq_ok.mp hcap
    simp only [ensure_eq_ok, decide_eq_true_eq] at hnumber
    obtain ⟨hrev, _, hindex⟩ := hnumber
    obtain ⟨hrevs, hindices, hord⟩ := ih htail
    refine ⟨forall_mem_cons.mpr ⟨hrev, hrevs⟩, forall_mem_cons.mpr ⟨hindex.le, ?_⟩,
      pairwise_cons.mpr ⟨?_, hord⟩⟩
    · intro other hother
      have := hindices other hother
      omega
    · intro other hother
      have hnext := hindices other hother
      refine .inr ⟨?_, ?_⟩
      · rw [hrev, hrevs other hother]
      · omega

variable [Footprint] [Codec]

variable {byteLimit : ℕ} {record : RecordDecision}

omit [Footprint] in
/-- A captured decision moves to the next revision, and its events are those of
that revision, in order. -/
lemma RecordDecision.new_numbered (hnew : RecordDecision.new input byteLimit = .ok record) :
    input.revisionAfter = input.revisionBefore + 1 ∧
      (∀ event ∈ input.events, event.revision = input.revisionAfter) ∧
      input.events.Pairwise WatchEvent.precedes := by
  obtain ⟨_, hlog, hnew⟩ := bind_eq_ok.mp hnew
  obtain ⟨_, _, hnew⟩ := bind_eq_ok.mp hnew
  obtain ⟨_, _, hnew⟩ := bind_eq_ok.mp hnew
  obtain ⟨_, hok, _⟩ := bind_eq_ok.mp hnew
  obtain ⟨_, _, hok⟩ := bind_eq_ok.mp hok
  obtain ⟨_, hschema, _⟩ := bind_eq_ok.mp hok
  simp only [ensure_eq_ok, Bool.and_eq_true, decide_eq_true_eq, checkedAdd_eq_some] at hschema
  obtain ⟨hrevs, _, hord⟩ := captureEvents_numbered hlog
  exact ⟨hschema.1.2.2.symm, hrevs, hord⟩

variable {revision : ℕ}

omit [Codec] in
lemma State.applyMutations_events {mutations : List TxnMutation}
    (happ : mutations.foldlM (State.applyMutation revision) before = .ok after) :
    before.1.events <+: after.1.events ∧ after.1.revision = before.1.revision ∧
      after.1.compactedTo = before.1.compactedTo := by
  refine foldlM_invariant (fun current : State × ℕ =>
    before.1.events <+: current.1.events ∧ current.1.revision = before.1.revision ∧
      current.1.compactedTo = before.1.compactedTo) ?_ happ
    ⟨prefix_rfl, rfl, rfl⟩
  rintro ⟨middle, index⟩ mutation ⟨next, last⟩ - ⟨hlog, hrev, hto⟩ hstep
  rcases State.applyMutation_cases hstep with
    ⟨_, _, _, _, rfl, _⟩ | ⟨_, _, _, _, rfl, _⟩ | ⟨_, _, rfl, _⟩
  · exact ⟨hlog.trans (prefix_append _ _), hrev, hto⟩
  · exact ⟨hlog.trans (prefix_append _ _), hrev, hto⟩
  · exact ⟨hlog, hrev, hto⟩

/-- What a committed mutation does to the event history. -/
structure Publication (state prepared : State) : Prop where
  retained : state.events <+: prepared.events
  revision : prepared.revision = state.revision + 1
  compactedTo : prepared.compactedTo = state.compactedTo
  numbered : ∀ event ∈ prepared.eventsSince state.events.length, event.revision = prepared.revision
  ordered : (prepared.eventsSince state.events.length).Pairwise WatchEvent.precedes

variable {applied : State} {completedAt : ℕ}

omit [Codec] in
lemma Publication.of_accounted (hcosts : State.accountHistoryChanges
      ((applied.completeRequests completedAt revision keys).completeEvents
        completedAt revision events) state accountedKeys eventsFrom
        completedAt = .ok prepared) (hkept : state.events <+: applied.events)
    (hrev : applied.revision = state.revision + 1)
    (hcompactedTo : applied.compactedTo = state.compactedTo)
    (hnums : ∀ event ∈ applied.eventsSince state.events.length, event.revision = applied.revision)
    (hord : (applied.eventsSince state.events.length).Pairwise WatchEvent.precedes) :
        Publication state prepared := by
  obtain ⟨_, rfl⟩ := State.accountHistoryChanges_frame hcosts
  exact ⟨hkept, hrev, hcompactedTo, hnums, hord⟩

variable {reply : RequestOutcome}

lemma PreparedTxn.publication {indexed}
    (hpre : PreparedTxn state clock txn completedAt byteLimit prepared revision reply record indexed
        applied) : Publication state prepared := by
  obtain ⟨_, _, _, _, hadvanced, _, hfold⟩ := State.applyTxn_committed hpre.committed
  obtain ⟨hlog, hrev, hto⟩ := State.applyMutations_events hfold
  obtain ⟨hpers, _, _⟩ := State.ensureHistoryIndex_persisted hpre.ensured
  have hidx : indexed.events = state.events := congrArg Persisted.events hpers
  have hmark : indexed.compactedTo = state.compactedTo := congrArg Persisted.compactedTo hpers
  obtain ⟨hnext, hnums, hord⟩ := RecordDecision.new_numbered hpre.captured
  simp only [MetaTxn.decision] at hnext hnums hord
  have happ : applied.revision = nextRevision state.revision := by
    rw [← hpre.advanced]
    exact hrev
  refine Publication.of_accounted hpre.accounted ?_ ?_ ?_ ?_ hord
  · rw [← hidx]
    exact hlog
  · rw [happ, hnext]
  · rw [← hmark]
    exact hto
  · rw [happ]
    exact hnums

lemma PreparedNode.publication
    (hpre : PreparedNode state now request lease completedAt byteLimit prepared revision reply
      record indexed applied epochs) :
    Publication state prepared := by
  obtain ⟨decided, first, second, epoch, hreg⟩ := State.registerNodeSession_committed hpre.committed
  obtain ⟨hpers, _, _⟩ := State.ensureHistoryIndex_persisted hpre.ensured
  have hidx : indexed.events = state.events := congrArg Persisted.events hpers
  have hmark : indexed.compactedTo = state.compactedTo := congrArg Persisted.compactedTo hpers
  obtain ⟨hnext, hnums, hord⟩ := RecordDecision.new_numbered hpre.captured
  simp only [NodeSessionLease.decision] at hnext hnums hord
  have hframe : indexed.events <+: applied.events ∧ applied.revision = revision ∧
      applied.compactedTo = indexed.compactedTo := by
    obtain ⟨_, _, rfl⟩ := State.decideEpoch_frame hreg.decides
    obtain ⟨_, _, _, _, rfl⟩ := State.putSession_eq_ok.mp hreg.putsFirst
    obtain ⟨_, _, _, _, rfl⟩ := State.putSession_eq_ok.mp hreg.putsSecond
    rw [hreg.applied_eq]
    refine ⟨?_, rfl, rfl⟩
    exact (prefix_append _ _).trans (prefix_append _ _)
  obtain ⟨hlog, hrev, hto⟩ := hframe
  rw [hpre.advanced] at hrev
  refine Publication.of_accounted hpre.accounted ?_ ?_ ?_ ?_ hord
  · rw [← hidx]
    exact hlog
  · rw [hrev, hnext]
  · rw [← hmark]
    exact hto
  · rw [hrev]
    exact hnums

lemma State.prepare_publication (hprep : state.prepare clock mutation completedAt byteLimit =
      .ok (prepared, .committed revision reply, some record)) : Publication state prepared := by
  cases mutation with
  | transaction txn =>
    obtain ⟨_, _, _, _, hpre⟩ := State.prepareTxnRecord_committed hprep
    exact hpre.publication
  | registerNode request lease =>
    obtain ⟨_, _, _, _, _, hpre⟩ := State.prepareNodeRecord_committed hprep
    exact hpre.publication

end Commit

/-! ## What a compaction removes -/

variable {count : ℕ}

section Compaction

/-- The revision of a retained event. -/
def eventRevision (event : Owned WatchEvent) : ℕ := event.value.revision

lemma countRemoved_cuts {events : List (Owned WatchEvent)}
    (hsort : events.Pairwise (eventRevision · ≤ eventRevision ·))
    (hnum : countRemoved compactedFrom compactedTo events start last = .ok (removed, count)) :
    ∃ cut, removed = start + cut ∧ Cuts eventRevision compactedTo cut events := by
  induction events generalizing start last with
  | nil =>
    cases hnum
    exact ⟨0, rfl, by simp, by simp⟩
  | cons event events ih =>
    rw [pairwise_cons] at hsort
    rw [countRemoved] at hnum
    split at hnum
    · cases hnum
    · split at hnum
      next hgt =>
        cases hnum
        refine ⟨0, rfl, by simp, ?_⟩
        rw [drop_zero]
        refine forall_mem_cons.mpr ⟨hgt, ?_⟩
        intro other hother
        exact hgt.trans_le (hsort.1 other hother)
      next hbelow =>
        simp only [bind_eq_ok, okOr_eq_ok, checkedAdd_eq_some] at hnum
        obtain ⟨_, ⟨_, rfl⟩, hnum⟩ := hnum
        obtain ⟨cut, hgone, hcuts⟩ := ih hsort.2 hnum
        refine ⟨cut + 1, by omega, ?_, ?_⟩
        · rw [take_succ_cons]
          exact forall_mem_cons.mpr ⟨Nat.le_of_not_lt hbelow, hcuts.below⟩
        · rw [drop_succ_cons]
          exact hcuts.above

/-- The watermark moves to the revision of an event that is removed. -/
lemma countRemoved_mark {events : List (Owned WatchEvent)}
    (hnum : countRemoved compactedFrom compactedTo events start last = .ok (removed, mark)) :
    mark = last ∨ ∃ event ∈ events, eventRevision event = mark := by
  induction events generalizing start last with
  | nil =>
    cases hnum
    exact .inl rfl
  | cons event events ih =>
    rw [countRemoved] at hnum
    split at hnum
    · cases hnum
    · split at hnum
      · cases hnum
        exact .inl rfl
      · simp only [bind_eq_ok] at hnum
        obtain ⟨_, -, hnum⟩ := hnum
        rcases ih hnum with rfl | ⟨other, hother, hmark⟩
        · exact .inr ⟨event, mem_cons_self, rfl⟩
        · exact .inr ⟨other, mem_cons_of_mem _ hother, hmark⟩

variable [Footprint]

lemma State.applyHistory_compacts
    (hsort : state.events.Pairwise (eventRevision · ≤ eventRevision ·))
    (happly : state.applyHistory delta = .ok next) :
    next.revision = state.revision ∧ state.compactedTo ≤ next.compactedTo ∧
      next.compactedTo ≤ state.revision ∧ (next.compactedTo = state.compactedTo ∨
        ∃ event ∈ state.events, eventRevision event = next.compactedTo) ∧
      next.events = state.events.filter
        fun event => decide (next.compactedTo < eventRevision event) := by
  obtain ⟨indexed, retired, history, removed, happ⟩ := State.applyHistory_applied happly
  obtain ⟨hpers, _, _⟩ := State.ensureHistoryIndex_persisted happ.ensured
  have hlog : indexed.events = state.events := congrArg Persisted.events hpers
  have hrev : indexed.revision = state.revision := congrArg Persisted.revision hpers
  obtain ⟨_, hok, _⟩ := bind_eq_ok.mp happ.valid
  simp only [ensure_eq_ok, decide_eq_true_eq] at hok
  obtain ⟨hfrom, hto, _⟩ := hok
  obtain ⟨cut, hgone, hcuts⟩ := countRemoved_cuts hsort happ.counted
  obtain ⟨_, _, _, _, hret⟩ := State.retireRequests_frame happ.retires
  rw [happ.next_eq, hret]
  dsimp only
  rw [hcuts.filter_gt, hlog, hrev, ← happ.compactedFrom_eq, ← happ.revision_eq]
  refine ⟨rfl, hfrom, hto, ?_, ?_⟩
  · rw [happ.compactedFrom_eq]
    exact countRemoved_mark happ.counted
  · rw [hgone, Nat.zero_add]

end Compaction

/-! ## What a reply contains -/

variable {limit spare next : ℕ} {found : List WatchEvent}

section Reply

variable [Footprint]

/-- A reply ends between revisions, and it is empty only when there is nothing to
reply. -/
structure Whole (events : List (Owned WatchEvent)) (count : ℕ) : Prop where
  between : ∀ first ∈ events.take count, ∀ second ∈ events.drop count,
    eventRevision first < eventRevision second
  progress : count = 0 → events = []

omit [Footprint] in
lemma between_of_fresh
    (hsort : (accepted ++ event :: rest).Pairwise (eventRevision · ≤ eventRevision ·))
    (hnew : accepted.getLast?.map eventRevision ≠ some (eventRevision event)) :
    ∀ first ∈ accepted, ∀ second ∈ event :: rest, eventRevision first < eventRevision second := by
  obtain ⟨haccepted, hrest, hacross⟩ := pairwise_append.mp hsort
  have hevent : ∀ second ∈ event :: rest, eventRevision event ≤ eventRevision second :=
    forall_mem_cons.mpr ⟨le_rfl, (pairwise_cons.mp hrest).1⟩
  intro first hone second htwo
  refine Nat.lt_of_lt_of_le ?_ (hevent second htwo)
  rcases eq_nil_or_concat accepted with rfl | ⟨earlier, last, rfl⟩
  · cases hone
  · rw [concat_eq_append] at *
    have hlast : eventRevision last < eventRevision event := by
      refine Nat.lt_of_le_of_ne (hacross last (by simp) event (by simp)) ?_
      simpa using hnew
    rcases mem_append.mp hone with hone | hone
    · refine Nat.lt_of_le_of_lt ?_ hlast
      exact (pairwise_append.mp haccepted).2.2 first hone last (by simp)
    · rwa [mem_singleton.mp hone]

lemma watchLoop_whole (hsort : (accepted ++ rest).Pairwise (eventRevision · ≤ eventRevision ·))
    (hlast : last = accepted.getLast?.map eventRevision)
    (hcomplete : ∀ first ∈ (accepted ++ rest).take complete.1,
      ∀ second ∈ (accepted ++ rest).drop complete.1, eventRevision first < eventRevision second)
    (hloop : watchLoop limit rest accepted.length bytes complete last = .ok (count, total)) :
    Whole (accepted ++ rest) count := by
  induction rest generalizing accepted bytes complete last with
  | nil =>
    cases hloop
    refine ⟨by simp, ?_⟩
    intro hnil
    rw [append_nil, length_eq_zero_iff.mp hnil]
  | cons event rest ih =>
    rw [watchLoop] at hloop
    generalize hnext : (if decide (last ≠ some event.value.revision) = true
      then (accepted.length, bytes) else complete) = next at hloop
    have hstart : last ≠ some event.value.revision →
        ∀ first ∈ (accepted ++ event :: rest).take accepted.length,
          ∀ second ∈ (accepted ++ event :: rest).drop accepted.length,
            eventRevision first < eventRevision second := by
      intro hnew
      rw [take_left, drop_left]
      rw [hlast] at hnew
      exact between_of_fresh hsort hnew
    have hwhole : ∀ first ∈ (accepted ++ event :: rest).take next.1,
        ∀ second ∈ (accepted ++ event :: rest).drop next.1,
          eventRevision first < eventRevision second := by
      by_cases hnew : last ≠ some event.value.revision
      · rw [← hnext, if_pos (decide_eq_true hnew)]
        exact hstart hnew
      · rw [← hnext, if_neg (by simpa using hnew)]
        exact hcomplete
    split at hloop
    next hbreak =>
      cases hloop
      refine ⟨hstart (of_decide_eq_true hbreak.1), ?_⟩
      intro hzero
      omega
    · simp only [bind_eq_ok] at hloop
      obtain ⟨held, _, bytes, _, hloop⟩ := hloop
      split at hloop
      · split at hloop
        · cases hloop
        next hsome =>
          cases hloop
          exact ⟨hwhole, fun hzero => absurd hzero hsome⟩
      · rw [append_cons] at hsort hwhole ⊢
        have hlen : accepted.length + 1 = (accepted ++ [event]).length := by
          rw [length_append, length_singleton]
        rw [hlen] at hloop
        exact ih hsort (by simp [eventRevision]) hwhole hloop

omit [Footprint] in
lemma Whole.cuts {events} (hwhole : Whole events count)
    (hsort : events.Pairwise (eventRevision · ≤ eventRevision ·))
    (hlast : (events.take count).getLast? = some last) :
    Cuts eventRevision (eventRevision last) count events := by
  obtain ⟨earlier, hpast⟩ := getLast?_eq_some_iff.mp hlast
  have hord := hsort.sublist (take_sublist count events)
  rw [hpast] at hord
  constructor
  · intro item hitem
    rw [hpast] at hitem
    rcases mem_append.mp hitem with hitem | hitem
    · exact (pairwise_append.mp hord).2.2 item hitem last (by simp)
    · rw [mem_singleton.mp hitem]
  · intro item hitem
    refine hwhole.between last ?_ item hitem
    rw [hpast]
    simp

omit [Footprint] in
lemma validateEvents_last (hok : validateEvents startRevision previous events = .ok last) :
    last = events.getLast?.or previous := by
  induction events generalizing previous with
  | nil =>
    cases hok
    rfl
  | cons event events ih =>
    obtain ⟨_, _, hrest⟩ := bind_eq_ok.mp hok
    rw [ih hrest, getLast?_cons]
    cases events.getLast? <;> rfl

omit [Footprint] in
lemma validateEvents_ok (hstart : ∀ event ∈ events, startRevision < event.revision)
    (hordered : events.Pairwise WatchEvent.precedes)
    (hprevious : ∀ before ∈ previous, ∀ event ∈ events, before.precedes event) :
    validateEvents startRevision previous events = .ok (events.getLast?.or previous) := by
  induction events generalizing previous with
  | nil => rfl
  | cons event events ih =>
    rw [forall_mem_cons] at hstart
    rw [pairwise_cons] at hordered
    have hone : previous.all fun before => decide (before.precedes event) := by
      simp only [Option.all_eq_true, decide_eq_true_eq]
      exact fun before hpre => hprevious before hpre event mem_cons_self
    have hrest : validateEvents startRevision (some event) events = _ :=
      ih hstart.2 hordered.2 (by simpa using hordered.1)
    have hlast : (event :: events).getLast?.or previous = events.getLast?.or (some event) := by
      rw [getLast?_cons]
      cases events.getLast? <;> rfl
    rw [hlast, validateEvents, hone, decide_eq_true hstart.1]
    exact hrest

lemma State.watch_events
    (hwatch : state.watch afterRevision limit spare = .ok (.events start next found)) :
    ∃ count total, state.compactedTo ≤ afterRevision ∧ start = afterRevision ∧ watchLoop limit
        (state.events.drop (eventsAfter state.events afterRevision)) 0
        watchResponseBaseBytes (0, watchResponseBaseBytes) none = .ok (count, total) ∧
      found = ((state.events.drop (eventsAfter state.events
        afterRevision)).take count).map Owned.value ∧
      next = found.getLast?.elim (nextRevision afterRevision)
        (fun event => nextRevision event.revision) ∧
      ∀ last ∈ found.getLast?, last.revision < next := by
  rw [State.watch] at hwatch
  split at hwatch
  · cases hwatch
  next hcompact =>
    simp only [bind_eq_ok, pure_eq_ok, Prod.exists] at hwatch
    obtain ⟨count, total, hloop, _, _, _, _, _, hok, hout⟩ := hwatch
    cases hout
    refine ⟨count, total, Nat.le_of_not_lt hcompact, rfl, hloop, rfl, rfl, ?_⟩
    simp only [WatchBatch.validateOrder, bind_eq_ok, ensure_eq_ok] at hok
    obtain ⟨last, hlast, hless⟩ := hok
    rw [validateEvents_last hlast, Option.or_none] at hless
    intro event hevent
    rw [Option.mem_def] at hevent
    rw [hevent] at hless ⊢
    exact of_decide_eq_true hless

/-! ## When there is a reply -/

/-- What one retained event is charged. -/
def eventWeight (event : Owned WatchEvent) : ℕ :=
  Footprint.sizeWatchEvent + keyHeap event.value.key +
    changeHeap event.value.change + event.spare + eventEntryBytes

lemma eventCharge_eq (event) : eventCharge event = charge (eventWeight event) := rfl

variable {event : Owned WatchEvent} {rest group : List (Owned WatchEvent)}

/-- One round of the loop that does not stop at the requested count. -/
lemma watchLoop_cons (hlimit : last ≠ some event.value.revision → ¬(0 < limit ∧ limit ≤ taken))
    (hsize : bytes + eventWeight event < Word.size)
    (hcomplete : (if last ≠ some event.value.revision then (taken, bytes) else complete) = kept) :
    watchLoop limit (event :: rest) taken bytes complete last =
      if watchResponseMaxEvents ≤ taken ∨ watchResponseMaxBytes < bytes + eventWeight event then
        if kept.1 = 0 then
          .error (full "one watch revision exceeds response limits; recover by scanning authority")
        else .ok kept
      else watchLoop limit rest (taken + 1) (bytes + eventWeight event) kept
        (some event.value.revision) := by
  have hcost : eventCharge event = .ok (eventWeight event) := by
    rw [eventCharge_eq, charge_eq_ok]
    exact ⟨(Nat.le_add_left _ _).trans_lt hsize, rfl⟩
  have hadd : okOr (checkedAdd bytes (eventWeight event)) (full "watch response byte overflow") =
      .ok (bytes + eventWeight event) :=
    okOr_eq_ok.mpr (checkedAdd_eq_some.mpr ⟨hsize, rfl⟩)
  rw [watchLoop, if_neg (by simpa using hlimit)]
  simp only [hcost, hadd, bind, Except.bind, decide_eq_true_eq, hcomplete]

lemma watchLoop_accept (hlimit : last ≠ some event.value.revision → ¬(0 < limit ∧ limit ≤ taken))
    (htaken : taken < watchResponseMaxEvents)
    (hbytes : bytes + eventWeight event ≤ watchResponseMaxBytes) :
    watchLoop limit (event :: rest) taken bytes complete last =
      watchLoop limit rest (taken + 1) (bytes + eventWeight event)
        (if last ≠ some event.value.revision then (taken, bytes) else complete)
        (some event.value.revision) := by
  rw [watchLoop_cons hlimit (hbytes.trans_lt (by decide)) rfl, if_neg (by omega)]

/-- The rest of a revision that has been begun is accepted. -/
lemma watchLoop_group (hgroup : ∀ event ∈ group, event.value.revision = revision)
    (htaken : taken + group.length ≤ watchResponseMaxEvents)
    (hbytes : bytes + (group.map eventWeight).sum ≤ watchResponseMaxBytes) :
    watchLoop limit (group ++ rest) taken bytes complete (some revision) =
      watchLoop limit rest (taken + group.length) (bytes + (group.map eventWeight).sum)
        complete (some revision) := by
  induction group generalizing taken bytes with
  | nil => rfl
  | cons event group ih =>
    rw [forall_mem_cons] at hgroup
    simp only [length_cons, map_cons, sum_cons] at htaken hbytes ⊢
    rw [cons_append, watchLoop_accept (by simp [hgroup.1]) (by omega) (by omega), hgroup.1,
      if_neg (by simp), ih hgroup.2 (by omega) (by omega)]
    congr 1 <;> omega

/-- Once a revision is complete the loop has something to reply. -/
lemma watchLoop_ok (hfits : ∀ event ∈ rest, eventWeight event ≤ watchResponseMaxBytes)
    (htaken : taken ≠ 0) (hbytes : bytes ≤ watchResponseMaxBytes)
    (hcomplete : complete.2 ≤ watchResponseMaxBytes)
    (hready : complete.1 ≠ 0 ∨ ∀ event ∈ rest.head?, last ≠ some event.value.revision) :
    ∃ count total, watchLoop limit rest taken bytes complete last = .ok (count, total) ∧
      total ≤ watchResponseMaxBytes := by
  induction rest generalizing taken bytes complete last with
  | nil => exact ⟨_, _, rfl, hbytes⟩
  | cons event rest ih =>
    rw [forall_mem_cons] at hfits
    generalize hnext : (if last ≠ some event.value.revision then (taken, bytes) else complete) =
      next
    have hready : next.1 ≠ 0 ∧ next.2 ≤ watchResponseMaxBytes := by
      subst hnext
      split
      · exact ⟨htaken, hbytes⟩
      next heq => exact ⟨hready.resolve_right fun hnew => heq (hnew event rfl), hcomplete⟩
    by_cases hstop : last ≠ some event.value.revision ∧ 0 < limit ∧ limit ≤ taken
    · rw [watchLoop, if_pos (by simpa using hstop)]
      exact ⟨_, _, rfl, hbytes⟩
    by_cases hroom : taken < watchResponseMaxEvents ∧
        bytes + eventWeight event ≤ watchResponseMaxBytes
    · rw [watchLoop_accept (not_and.mp hstop) hroom.1 hroom.2, hnext]
      exact ih hfits.2 (by omega) hroom.2 hready.2 (.inl hready.1)
    · refine ⟨next.1, next.2, ?_, hready.2⟩
      rw [watchLoop_cons (not_and.mp hstop) ((add_le_add hbytes hfits.1).trans_lt (by decide))
        hnext, if_pos (by omega), if_neg hready.1]

end Reply

/-! ## Runs -/

section Runs

/-- What holds of a consumer and its store between calls. -/
structure Streaming (stream : Stream) : Prop where
  ordered : stream.published.Pairwise WatchEvent.precedes
  bounded : ∀ event ∈ stream.published, event.revision ≤ stream.state.revision
  retained : stream.state.events.map Owned.value = stream.published.filter
    fun event => decide (stream.state.compactedTo < event.revision)
  watermark : stream.state.compactedTo ≤ stream.state.revision
  reached : stream.cursor ≤ stream.state.revision
  short : stream.cursor + 1 < Word.size
  mark : stream.state.compactedTo = 0 ∨
    ∃ event ∈ stream.published, event.revision = stream.state.compactedTo
  delivered : stream.delivered = stream.published.filter
    fun event => decide (event.revision ≤ stream.cursor)

lemma streaming_start : Streaming .start where
  ordered := List.Pairwise.nil
  bounded := by simp [Stream.start]
  retained := rfl
  watermark := le_rfl
  reached := le_rfl
  short := by decide
  mark := .inl rfl
  delivered := rfl

variable {stream : Stream}

variable (hfeed : Streaming stream)

include hfeed

lemma Streaming.sorted : stream.state.events.Pairwise (eventRevision · ≤ eventRevision ·) := by
  have hvalues : (stream.state.events.map Owned.value).Pairwise
      WatchEvent.precedes := by
    rw [hfeed.retained]
    exact hfeed.ordered.filter _
  exact (pairwise_map.mp hvalues).imp WatchEvent.precedes.revision_le

/-- The retained events after the cursor. -/
def Stream.remaining (stream : Stream) : List (Owned WatchEvent) :=
  stream.state.events.filter fun event => decide (stream.cursor < eventRevision event)

lemma Streaming.drop_eq : stream.state.events.drop
    (eventsAfter stream.state.events stream.cursor) = stream.remaining := by
  have hcuts : Cuts eventRevision stream.cursor
      (eventsAfter stream.state.events stream.cursor) stream.state.events := by
    refine bisect_cuts hfeed.sorted (Nat.zero_le _) le_rfl ?_ ?_
    · simp
    · simp
  exact hcuts.filter_gt.symm

/-- They are the published ones after it. -/
lemma Streaming.remaining (hcompact : stream.state.compactedTo ≤ stream.cursor) :
    stream.remaining.map Owned.value =
      stream.published.filter fun event => decide (stream.cursor < event.revision) := by
  calc (stream.state.events.filter
          fun event => decide (stream.cursor < eventRevision event)).map Owned.value
      = (stream.state.events.map Owned.value).filter
          fun event => decide (stream.cursor < event.revision) := by
        rw [filter_map]
        rfl
    _ = stream.published.filter fun event => decide (stream.cursor < event.revision) := by
        rw [hfeed.retained, filter_filter]
        apply filter_congr
        intro event _
        rw [← Bool.decide_and, decide_eq_decide]
        omega

variable [Footprint]

/-- A reply with events continues the stream up to the end of a revision. -/
lemma Streaming.reply
    (hwatch : stream.state.watch stream.cursor limit spare = .ok (.events start next found)) :
    start = stream.cursor ∧ stream.cursor ≤ next - 1 ∧
      next - 1 ≤ stream.state.revision ∧ next - 1 + 1 < Word.size ∧
      found = stream.published.filter (fun event =>
        decide (stream.cursor < event.revision ∧ event.revision ≤ next - 1)) ∧
      (found = [] → ∀ event ∈ stream.published, event.revision ≤ stream.cursor) := by
  obtain ⟨count, total, hcompact, hstart, hloop, hget, hnext, hlast⟩ := State.watch_events hwatch
  have hleft := hfeed.remaining hcompact
  have hsort : stream.remaining.Pairwise (eventRevision · ≤ eventRevision ·) :=
    hfeed.sorted.sublist filter_sublist
  rw [hfeed.drop_eq] at hloop hget
  generalize stream.remaining = remaining at hloop hget hleft hsort
  have hwhole : Whole ([] ++ remaining) count := watchLoop_whole hsort rfl (by simp) hloop
  rw [nil_append] at hwhole
  cases hend : found.getLast? with
  | none =>
    have hnil : found = [] := getLast?_eq_none_iff.mp hend
    have hnone : remaining = [] := by
      rw [hnil, eq_comm, map_eq_nil_iff, take_eq_nil_iff] at hget
      rcases hget with hzero | hnone
      · exact hwhole.progress hzero
      · exact hnone
    have hcursor : next = stream.cursor + 1 := by
      rw [hnext, hend, Option.elim_none, nextRevision, saturatingAdd]
      have := hfeed.short
      omega
    rw [hnone, map_nil, eq_comm, filter_eq_nil_iff] at hleft
    simp only [decide_eq_true_eq, Nat.not_lt] at hleft
    have hbound := hfeed.reached
    have hshort := hfeed.short
    refine ⟨hstart, by omega, by omega, by omega, ?_, fun _ => hleft⟩
    rw [hnil, eq_comm, filter_eq_nil_iff]
    intro event hevent
    have := hleft event hevent
    simp
    omega
  | some last =>
    have htaken : ∃ owner, (remaining.take count).getLast? = some owner ∧ owner.value = last := by
      rw [hget, getLast?_map, Option.map_eq_some_iff] at hend
      exact hend
    obtain ⟨owner, hown, rfl⟩ := htaken
    have hcuts := hwhole.cuts hsort hown
    have hnumber : next = owner.value.revision + 1 := by
      have hless := hlast owner.value hend
      rw [hnext, hend, Option.elim_some, nextRevision, saturatingAdd] at hless ⊢
      omega
    have hmem : owner.value ∈ stream.published ∧ stream.cursor < owner.value.revision := by
      have hval : owner.value ∈ remaining.map Owned.value :=
        mem_map_of_mem (mem_of_mem_take (mem_of_getLast? hown))
      rw [hleft, mem_filter, decide_eq_true_eq] at hval
      exact hval
    have hbound := hfeed.bounded owner.value hmem.1
    have hlater := hmem.2
    have hsize : next < Word.size := by
      rw [hnext, hend]
      exact saturatingAdd_lt _ _
    refine ⟨hstart, by omega, by omega, by omega, ?_, ?_⟩
    · calc found
          = (remaining.filter fun event =>
              decide (eventRevision event ≤ owner.value.revision)).map
                Owned.value := by
            rw [hget]
            exact congrArg (map Owned.value) hcuts.filter_le.symm
        _ = (remaining.map Owned.value).filter fun event =>
              decide (event.revision ≤ owner.value.revision) := by
            rw [filter_map]
            rfl
        _ = stream.published.filter fun event => decide
              (stream.cursor < event.revision ∧ event.revision ≤ next - 1) := by
            rw [hleft, filter_filter]
            apply filter_congr
            intro event _
            rw [← Bool.decide_and, decide_eq_decide]
            omega
    · intro hnil
      rw [hnil] at hend
      cases hend

/-- The reply of the next revision fits: each event that remains fits a reply, and
so do those of the first revision together. -/
structure Stream.Fits (stream : Stream) : Prop where
  each : ∀ event ∈ stream.remaining, eventWeight event ≤ watchResponseMaxBytes
  count : ∀ first ∈ stream.remaining.head?,
    (stream.remaining.takeWhile (eventRevision · = eventRevision first)).length ≤
      watchResponseMaxEvents
  bytes : ∀ first ∈ stream.remaining.head?, watchResponseBaseBytes +
    ((stream.remaining.takeWhile (eventRevision · = eventRevision first)).map eventWeight).sum ≤
      watchResponseMaxBytes

omit hfeed in
lemma Stream.Fits.watchLoop (hfits : stream.Fits) (limit) :
    ∃ count total, watchLoop limit stream.remaining 0 watchResponseBaseBytes
      (0, watchResponseBaseBytes) none = .ok (count, total) ∧ total ≤ watchResponseMaxBytes := by
  obtain ⟨heach, hnum, hbytes⟩ := hfits
  cases hleft : stream.remaining with
  | nil => exact ⟨_, _, rfl, by decide⟩
  | cons first rest =>
    rw [hleft] at heach hnum hbytes
    replace hnum := hnum first rfl
    replace hbytes := hbytes first rfl
    rw [takeWhile_cons_of_pos (by simp), length_cons] at hnum
    rw [takeWhile_cons_of_pos (by simp), map_cons, sum_cons] at hbytes
    rw [watchLoop_accept (by omega) (by omega) (by omega), if_pos (by simp)]
    have hsplit := takeWhile_append_dropWhile
      (p := fun event => decide (eventRevision event = eventRevision first)) (l := rest)
    have hgroup : ∀ event ∈ rest.takeWhile fun event =>
        decide (eventRevision event = eventRevision first),
        event.value.revision = first.value.revision := by
      intro event hevent
      have heq := mem_takeWhile_imp hevent
      exact of_decide_eq_true heq
    rw [← hsplit, watchLoop_group hgroup (by omega) (by omega)]
    refine watchLoop_ok (fun event hevent => ?_) (by omega) (by omega) (by decide) (.inr ?_)
    · exact heach event (mem_cons_of_mem _ ((dropWhile_sublist _).subset hevent))
    · intro event hevent heq
      have hother := head?_dropWhile_not
        (fun event => decide (eventRevision event = eventRevision first)) rest
      rw [Option.mem_def.mp hevent] at hother
      simp [eventRevision, (Option.some.inj heq).symm] at hother

/-- While nothing after the cursor was compacted away and the next revision fits,
there is a reply with events. -/
lemma Streaming.replies (hkept : ∀ event ∈ stream.published, stream.cursor < event.revision →
      event ∈ stream.state.events.map Owned.value)
    (hfits : stream.Fits) (hrev : stream.state.revision + 1 < Word.size) (limit) :
    ∃ next found, stream.state.watch stream.cursor limit 0 =
      .ok (.events stream.cursor next found) := by
  have hcompact : stream.state.compactedTo ≤ stream.cursor := by
    by_contra hbelow
    obtain ⟨event, hevent, hmark⟩ := hfeed.mark.resolve_left (by omega)
    have hmem := hkept event hevent (by omega)
    rw [hfeed.retained, mem_filter, decide_eq_true_eq] at hmem
    omega
  obtain ⟨count, total, hloop, htotal⟩ := hfits.watchLoop limit
  obtain ⟨found, hget⟩ : ∃ found, (stream.remaining.take count).map Owned.value = found :=
    ⟨_, rfl⟩
  have hprefix : found <+: stream.published.filter
      fun event => decide (stream.cursor < event.revision) := by
    rw [← hget, map_take, hfeed.remaining hcompact]
    exact take_prefix _ _
  have hmem : ∀ event ∈ found, event ∈ stream.published ∧ stream.cursor < event.revision := by
    intro event hevent
    simpa using hprefix.subset hevent
  have hok : validateEvents stream.cursor none found = _ :=
    validateEvents_ok (fun event hevent => (hmem event hevent).2)
      ((hfeed.ordered.filter _).sublist hprefix.sublist) (by simp)
  refine ⟨found.getLast?.elim (nextRevision stream.cursor) fun event => nextRevision event.revision,
    found, ?_⟩
  rw [State.watch, if_neg (Nat.not_lt.mpr hcompact)]
  dsimp only
  rw [hfeed.drop_eq]
  refine bind_eq_ok.mpr ⟨(count, total), hloop, bind_eq_ok.mpr ⟨0, by simp [okOr_eq_ok, Word.size],
    bind_eq_ok.mpr ⟨(), ?_, bind_eq_ok.mpr ⟨(), ?_, by rw [hget]; rfl⟩⟩⟩⟩
  · have hsize : total < Word.size := htotal.trans_lt (by decide)
    simp [ensure_eq_ok, checkedAdd, hsize, htotal]
  · rw [hget]
    refine bind_eq_ok.mpr ⟨_, hok, ensure_eq_ok.mpr ?_⟩
    cases hlast : found.getLast? with
    | none => rfl
    | some last =>
      have hbound := hfeed.bounded last (hmem last (mem_of_getLast? hlast)).1
      refine decide_eq_true ?_
      rw [Option.elim_some, nextRevision, saturatingAdd]
      omega

omit [Footprint] in
lemma Streaming.commit (hpub : Publication stream.state prepared) : Streaming { stream with
      state := prepared
      published := stream.published ++ prepared.eventsSince stream.state.events.length } := by
  have hnew : ∀ event ∈ prepared.eventsSince stream.state.events.length,
      event.revision = stream.state.revision + 1 := by
    intro event hevent
    rw [hpub.numbered event hevent, hpub.revision]
  have hwatermark := hfeed.watermark
  have hreached := hfeed.reached
  refine ⟨?_, ?_, ?_, ?_, ?_, hfeed.short, ?_, ?_⟩
  · refine pairwise_append.mpr ⟨hfeed.ordered, hpub.ordered, ?_⟩
    intro first hone second htwo
    have hbound := hfeed.bounded first hone
    have htwo := hnew second htwo
    exact .inl (by omega)
  · intro event hevent
    rw [hpub.revision]
    rcases mem_append.mp hevent with hevent | hevent
    · exact (hfeed.bounded event hevent).trans (Nat.le_succ _)
    · exact (hnew event hevent).le
  · have hsplit : prepared.events = stream.state.events ++
        prepared.events.drop stream.state.events.length :=
      (prefix_iff_eq_append.mp hpub.retained).symm
    have hkept : (prepared.eventsSince stream.state.events.length).filter
        (fun event => decide (stream.state.compactedTo < event.revision)) =
          prepared.eventsSince stream.state.events.length := by
      rw [filter_eq_self]
      intro event hevent
      rw [hnew event hevent]
      exact decide_eq_true (by omega)
    rw [hpub.compactedTo, filter_append, hkept, ← hfeed.retained,
      State.eventsSince, ← map_append, ← hsplit]
  · rw [hpub.compactedTo, hpub.revision]
    omega
  · rw [hpub.revision]
    exact hreached.trans (Nat.le_succ _)
  · rw [hpub.compactedTo]
    refine hfeed.mark.imp_right ?_
    rintro ⟨event, hevent, hmark⟩
    exact ⟨event, mem_append_left _ hevent, hmark⟩
  · have hnil : (prepared.eventsSince stream.state.events.length).filter
        (fun event => decide (event.revision ≤ stream.cursor)) = [] := by
      rw [filter_eq_nil_iff]
      intro event hevent
      rw [hnew event hevent]
      simp
      omega
    rw [filter_append, hnil, append_nil]
    exact hfeed.delivered

lemma Streaming.compact {next} (hretain : stream.state.applyHistory delta = .ok next) :
    Streaming { stream with state := next } := by
  obtain ⟨hrev, hfrom, hto, hmark, hlog⟩ :=
    State.applyHistory_compacts hfeed.sorted hretain
  refine ⟨hfeed.ordered, ?_, ?_, ?_, ?_, hfeed.short, ?_, hfeed.delivered⟩
  · rw [hrev]
    exact hfeed.bounded
  · calc next.events.map Owned.value
        = (stream.state.events.map Owned.value).filter
            fun event => decide (next.compactedTo < event.revision) := by
          rw [hlog, filter_map]
          rfl
      _ = stream.published.filter fun event => decide (next.compactedTo < event.revision) := by
          rw [hfeed.retained, filter_filter]
          apply filter_congr
          intro event _
          rw [← Bool.decide_and, decide_eq_decide]
          omega
  · rw [hrev]
    exact hto
  · rw [hrev]
    exact hfeed.reached
  · rcases hmark with heq | ⟨event, hevent, hmark⟩
    · simpa [heq] using hfeed.mark
    · have hmem := mem_map_of_mem (f := Owned.value) hevent
      rw [hfeed.retained] at hmem
      exact .inr ⟨_, mem_of_mem_filter hmem, hmark⟩

lemma Streaming.deliver
    (hwatch : stream.state.watch stream.cursor limit spare = .ok (.events start next found)) :
    Streaming { stream with
      cursor := next - 1
      delivered := stream.delivered ++ found } := by
  obtain ⟨_, hforward, hreached, hshort, hget, _⟩ := hfeed.reply hwatch
  refine ⟨hfeed.ordered, hfeed.bounded, hfeed.retained, hfeed.watermark, hreached,
    hshort, hfeed.mark, ?_⟩
  have hsort : stream.published.Pairwise (WatchEvent.revision · ≤ WatchEvent.revision ·) :=
    hfeed.ordered.imp WatchEvent.precedes.revision_le
  rw [filter_le_split hsort hforward, ← hfeed.delivered, ← hget]

variable [Codec]

omit hfeed

lemma Streaming.step (hfeed : Streaming stream) (hstep : StreamStep stream event after) :
    Streaming after := by
  cases hstep with
  | commit hprep => exact hfeed.commit (State.prepare_publication hprep)
  | compact hretain => exact hfeed.compact hretain
  | deliver hwatch => exact hfeed.deliver hwatch
  | report | refuse => exact hfeed

/-- Whatever is committed and compacted between its calls, and whatever limits
it asks with, a consumer has received exactly what was published up to its
cursor.  It is told when something after the cursor was compacted away; otherwise
it is given the next events, as long as they fit a reply. -/
theorem watch_stream_complete {events : List StreamEvent}
    (hrun : Run StreamStep .start events stream) : stream.published.Pairwise WatchEvent.precedes ∧
    stream.delivered = stream.published.filter
      (fun event => decide (event.revision ≤ stream.cursor)) ∧
    (∀ limit spare start next found, stream.state.watch stream.cursor limit spare =
          .ok (.events start next found) → start = stream.cursor ∧ stream.cursor ≤ next - 1 ∧
        found = stream.published.filter (fun event => decide
          (stream.cursor < event.revision ∧ event.revision ≤ next - 1)) ∧
        (found = [] → ∀ event ∈ stream.published, event.revision ≤ stream.cursor)) ∧
    ((∀ event ∈ stream.published, stream.cursor < event.revision →
        event ∈ stream.state.events.map Owned.value) →
      stream.Fits → stream.state.revision + 1 < Word.size →
      ∀ limit, ∃ next found, stream.state.watch stream.cursor limit 0 =
          .ok (.events stream.cursor next found) ∧
        ((∃ event ∈ stream.published, stream.cursor < event.revision) → found ≠ [])) ∧
    ∀ event ∈ stream.published, stream.cursor < event.revision →
      event ∉ stream.state.events.map Owned.value →
        ∀ limit spare, stream.state.watch stream.cursor limit spare =
          .ok (.compacted stream.cursor stream.state.compactedTo
            ⟨stream.state.revision, .watchCompacted⟩) := by
  have hfeed : Streaming stream := hrun.invariant Streaming.step streaming_start
  refine ⟨hfeed.ordered, hfeed.delivered, ?_, ?_, ?_⟩
  · intro limit spare start next found hwatch
    obtain ⟨hstart, hforward, _, _, hget, hnil⟩ := hfeed.reply hwatch
    exact ⟨hstart, hforward, hget, hnil⟩
  · intro hkept hfits hrev limit
    obtain ⟨next, found, hwatch⟩ := hfeed.replies hkept hfits hrev limit
    refine ⟨next, found, hwatch, fun ⟨event, hevent, hnext⟩ hnone => ?_⟩
    obtain ⟨_, _, _, _, _, hnil⟩ := hfeed.reply hwatch
    exact Nat.not_lt.mpr (hnil hnone event hevent) hnext
  · intro event hevent hnext hgone limit spare
    have hcompact : stream.cursor < stream.state.compactedTo := by
      rw [hfeed.retained, List.mem_filter, decide_eq_true_eq, not_and] at hgone
      have := hgone hevent
      omega
    rw [State.watch, if_pos hcompact]

end Runs

/-- The event of one deletion, and what a consumer is given that asks twice
after it. -/
def deletionReplies : Result (List WatchEvent × List WatchEvent × List WatchEvent) :=
  letI := plainFootprint
  letI := plainCodec
  do
    let (prepared, outcome, record) ← State.default.prepareTxnRecord
      (fun _ => 0) (deletingTxn 0) 1 65536
    let first ← prepared.watch 0 1 0
    let second ← prepared.watch 1 1 0
    match outcome, record, first, second with
    | .committed _ _, some _, .events _ 2 found, .events _ 2 rest =>
      return (prepared.eventsSince 0, found, rest)
    | _, _, _, _ => .error (invalidContract "not delivered")

/-- A consumer asks after one deletion, and once more when nothing is left. -/
theorem deletion_stream_complete : letI := plainFootprint
    letI := plainCodec
    ∃ stream, Run StreamStep .start
        [.committed, .delivered [⟨1, 0, .dfsInode "7", .delete⟩], .delivered []] stream ∧
      stream.published = [⟨1, 0, .dfsInode "7", .delete⟩] ∧ stream.cursor = 1 ∧
      stream.delivered = stream.published.filter
        fun event => decide (event.revision ≤ stream.cursor) := by
  let _ := plainFootprint
  let _ := plainCodec
  have hreplies : deletionReplies = .ok ([⟨1, 0, .dfsInode "7", .delete⟩],
      [⟨1, 0, .dfsInode "7", .delete⟩], []) := by decide +kernel
  obtain ⟨⟨prepared, outcome, record⟩, hprep, hreplies⟩ := bind_eq_ok.mp hreplies
  obtain ⟨first, hone, hreplies⟩ := bind_eq_ok.mp hreplies
  obtain ⟨second, htwo, hreplies⟩ := bind_eq_ok.mp hreplies
  split at hreplies
  · simp only [pure_eq_ok, Prod.mk.injEq] at hreplies
    obtain ⟨hsince, rfl, rfl⟩ := hreplies
    have hdone := Run.snoc (.refl Stream.start) (@StreamStep.commit _ _ Stream.start prepared
      (fun _ => 0) (.transaction (deletingTxn 0)) 1 65536 _ _ _ hprep)
    have hasked := hdone.snoc (.deliver hone)
    have hrun := hasked.snoc (.deliver htwo)
    exact ⟨_, hrun, hsince, rfl, (watch_stream_complete hrun).2.1⟩
  · cases hreplies

end AgentDx.Store
