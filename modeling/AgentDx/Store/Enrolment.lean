import AgentDx.Store.IndexRun

/-!
# When a registration commits

A registration puts one session under two keys, records one outcome and adds two
events.  On a state whose derived fields are exact it commits as soon as every
counter and charge on its way has room; the events are numbered over the whole
history of the store, and that number has 32 bits.
-/

namespace AgentDx.Store

open Dfs Std Word Keyed OrderedMap Result List Nat

/-! ## The captured record -/

section Capture

variable [codec : Codec]

/-- The two events of a registration. -/
def sessionEvents (revision start : ℕ) (session : NodeSession) : List WatchEvent :=
  [⟨revision, start, .nodeSession session.nodeId session.sessionId, .put (.nodeSession session)⟩,
    ⟨revision, start + 1, .currentNodeSession session.nodeId, .put (.nodeSession session)⟩]

/-- What a registration records: the session is pooled once, and both changes
and the outcome refer to it. -/
def sessionRecord (revision start : ℕ) (request : RequestKey)
    (session : NodeSession) (completedAt : ℕ) (epochs : List (String × ℕ)) : RecordDecision where
  schema := 1
  request := request
  operation := .registerNode
  revisionBefore := revision
  revisionAfter := revision + 1
  completedAtUnixMs := completedAt
  eventIndexStart := start
  values := [.entity (.nodeSession session)]
  changes := [.put (.nodeSession session.nodeId session.sessionId) 0,
    .put (.currentNodeSession session.nodeId) 0]
  outcomes := [⟨request, .registerNode, [], .nodeSession 0⟩]
  replyOutcome := 0
  nodeEpochs := epochs

/-- The record of a registration is within the limits of the log. -/
structure RecordFits (byteLimit : ℕ) (session : NodeSession)
    (record : RecordDecision) : Prop where
  entity : codec.entitySize (.nodeSession session) ≤ byteLimit
  value : codec.valueSize (.entity (.nodeSession session)) ≤ byteLimit
  record : codec.decisionSize record ≤ byteLimit

variable {revision start completedAt byteLimit : ℕ} {request : RequestKey}
variable {session : NodeSession} {epochs : List (String × ℕ)}

omit codec in
lemma sessionKey_matches :
    matchesKey (.nodeSession session.nodeId session.sessionId) (.nodeSession session) = true := by
  simp [matchesKey, entityKey]

omit codec in
lemma currentKey_matches :
    matchesKey (.currentNodeSession session.nodeId) (.nodeSession session) = true := by
  simp [matchesKey]

/-- The pool that holds a session. -/
def sessionPool (byteLimit : ℕ) (session : NodeSession) : Pool where
  values := [.entity (.nodeSession session)]
  byKey := [((.nodeSession session.nodeId session.sessionId,
    codec.entityFingerprint (.nodeSession session)), 0)]
  byClaim := []
  bytes := codec.valueSize (.entity (.nodeSession session))
  limit := byteLimit
  itemLimit := recordItems

lemma insert_new (hent : codec.entitySize (.nodeSession session) ≤ byteLimit)
    (hval : codec.valueSize (.entity (.nodeSession session)) ≤ byteLimit) :
    (Pool.new byteLimit recordItems).insert (.nodeSession session) =
      .ok (sessionPool byteLimit session, 0) := by
  have hps : (Pool.new byteLimit recordItems).push
      (.entity (.nodeSession session)) = .ok ({ Pool.new byteLimit recordItems
        with
        values := [.entity (.nodeSession session)]
        bytes := codec.valueSize (.entity (.nodeSession session)) }, 0) := by
    have hby : 0 + codec.valueSize (.entity (.nodeSession session)) ≤ byteLimit := by rwa [zero_add]
    refine (ensure_bind (decide_eq_true hby)).trans ?_
    refine (ensure_bind rfl).trans ?_
    refine (ensure_bind rfl).trans ?_
    simp [Pool.new, pure, Except.pure]
  refine bind_eq_ok.mpr ⟨none, rfl, ?_⟩
  refine (ensure_bind (decide_eq_true hent)).trans ?_
  refine bind_eq_ok.mpr ⟨_, rfl, ?_⟩
  exact bind_eq_ok.mpr ⟨_, hps, rfl⟩

lemma insert_again : (sessionPool byteLimit session).insert (.nodeSession session) =
      .ok (sessionPool byteLimit session, 0) := by
  have h : findRestored (restoreEntity (sessionPool byteLimit session).values)
      (.nodeSession session) (positions (sessionPool byteLimit session).byKey
        (entityKey (.nodeSession session),
          codec.entityFingerprint (.nodeSession session))) = .ok (some 0) := by
    simp [sessionPool, positions, findRestored, restoreEntity, carriesClaim,
      entityKey, bind, Except.bind, pure, Except.pure]
  exact bind_eq_ok.mpr ⟨some 0, h, rfl⟩

lemma sessionRecord_validate (hok : request.isValid = true)
    (hrev : revision + 1 < Word.size) (hstart : start + 1 < 2 ^ 32)
    (hepochs : checkEpochs epochs = true) (hnum : epochs.length ≤ 1) :
    (sessionRecord revision start request session completedAt epochs).validate = .ok () := by
  have hcp : vectorCapacity epochs.length = epochs.length := if_pos hnum
  have hbd : (sessionRecord revision start request session completedAt
      epochs).withinBudget = true := by
    have hon : vectorCapacity 1 = 1 := rfl
    have htw : vectorCapacity 2 = 2 := rfl
    simp only [RecordDecision.withinBudget, sessionRecord, length_cons,
      length_nil, hcp, hon, htw, decide_eq_true_eq, recordItems, maxItems]
    refine ⟨by omega, ?_⟩
    nlinarith
  refine bind_eq_ok.mpr ⟨(), by simpa using hbd, ?_⟩
  refine bind_eq_ok.mpr ⟨(), ?_, ?_⟩
  · simp [sessionRecord, hok, hrev]
  refine bind_eq_ok.mpr ⟨(), ?_, ?_⟩
  · rfl
  refine bind_eq_ok.mpr ⟨(), by simpa [sessionRecord] using hepochs, ?_⟩
  refine bind_eq_ok.mpr ⟨(), ?_, ?_⟩
  · refine bind_eq_ok.mpr ⟨(), ?_, ?_⟩
    · exact ensure_eq_ok.mpr sessionKey_matches
    · refine bind_eq_ok.mpr ⟨(), ?_, rfl⟩
      exact ensure_eq_ok.mpr currentKey_matches
  refine bind_eq_ok.mpr ⟨(), by simp [sessionRecord], ?_⟩
  refine bind_eq_ok.mpr ⟨(), ?_, ?_⟩
  · refine bind_eq_ok.mpr ⟨(), ?_, rfl⟩
    exact bind_eq_ok.mpr ⟨(), ensure_eq_ok.mpr hok, rfl⟩
  refine bind_eq_ok.mpr ⟨(), rfl, ?_⟩
  refine bind_eq_ok.mpr ⟨(), rfl, ?_⟩
  refine bind_eq_ok.mpr ⟨(), ?_, ?_⟩
  · rfl
  refine bind_eq_ok.mpr ⟨(), rfl, ?_⟩
  simpa [sessionRecord] using hstart

lemma captureSession (hok : request.isValid = true) (hrev : revision + 1 < Word.size)
    (hstart : start + 1 < 2 ^ 32) (hepochs : checkEpochs epochs = true) (hnum : epochs.length ≤ 1)
    (hfits : RecordFits byteLimit session
      (sessionRecord revision start request session completedAt epochs)) :
    RecordDecision.new {
      request := request
      operation := .registerNode
      revisionBefore := revision
      revisionAfter := revision + 1
      completedAtUnixMs := completedAt
      events := sessionEvents (revision + 1) start session
      outcomes := [⟨request, .registerNode, .nodeSession session⟩]
      reply := ⟨request, .registerNode, .nodeSession session⟩
      nodeEpochs := epochs } byteLimit =
      .ok (sessionRecord revision start request session completedAt epochs) := by
  have hev : captureEvents (revision + 1) start 0
      (sessionEvents (revision + 1) start session)
      (Pool.new byteLimit recordItems) = .ok (sessionPool byteLimit session,
          [.put (.nodeSession session.nodeId session.sessionId) 0,
            .put (.currentNodeSession session.nodeId) 0]) := by
    have hfs : start < 2 ^ 32 := by omega
    simp only [captureEvents, sessionEvents, captureChange, sessionKey_matches,
      currentKey_matches, insert_new hfits.entity hfits.value, insert_again,
      add_zero, hfs, hstart, and_self, decide_true, ensure_bind, ok_bind, pure, Except.pure]
  have hot : captureOutcomes
      [⟨request, .registerNode, .nodeSession session⟩]
      (sessionPool byteLimit session) = .ok (sessionPool byteLimit session,
        [⟨request, .registerNode, [], .nodeSession 0⟩]) := by
    simp only [captureOutcomes, SavedOutcome.save, flattenNamespace, Pool.saveResult, insert_again]
    rfl
  refine bind_eq_ok.mpr ⟨_, hev, ?_⟩
  refine bind_eq_ok.mpr ⟨(), by simp, ?_⟩
  refine bind_eq_ok.mpr ⟨_, hot, ?_⟩
  have hrc : (sessionRecord revision start request session completedAt epochs).validate = .ok () :=
    sessionRecord_validate hok hrev hstart hepochs hnum
  simp only [idxOf_cons_self]
  refine bind_eq_ok.mpr ⟨(), hrc, ?_⟩
  exact ensure_bind (decide_eq_true hfits.record)

end Capture

/-! ## Applying a registration -/

section Apply

variable [Footprint]

section

variable (state : State) (lease : NodeSessionLease) (now : ℕ)

/-- The epoch a registration gives its session. -/
def State.epochFor : ℕ :=
  (state.liveLeaseEpoch lease now).getD (saturatingAdd (state.nodeEpochs[lease.nodeId]?.getD 0) 1)

/-- The session a registration stores. -/
def State.sessionFor : NodeSession :=
  lease.session now (state.epochFor lease now)

/-- The session id is not that of an expired session. -/
def State.Renewable : Prop :=
  ∀ session, state.entity? (.nodeSession lease.nodeId lease.sessionId) =
    some (.nodeSession session) → session.isLiveAtUnixMs now = true

end

/-- A registration request that names its node, its session and a lifetime. -/
structure WellFormed (request : RequestKey) (lease : NodeSessionLease) : Prop where
  request : request.isValid = true
  node : lease.nodeId.isEmpty = false
  session : lease.sessionId.isEmpty = false
  lifetime : lease.leaseTtlNanos ≠ 0

/-- What a registration can add to the authority. -/
def sessionWeight (session : NodeSession) : ℕ :=
  entityWeight (.nodeSession session.nodeId session.sessionId)
      ⟨0, .nodeSession session⟩ +
    entityWeight (.currentNodeSession session.nodeId) ⟨0, .nodeSession session⟩ +
    epochWeight session.nodeId session.leaseEpoch

variable {state next : State} {lease : NodeSessionLease} {request : RequestKey}
variable {now revision : ℕ} {session : NodeSession} {key : MetaKey}

omit [Footprint] in
lemma State.nextNodeEventIndex_eq_ok :
    state.nextNodeEventIndex = .ok index ↔ state.eventsRemoved + state.events.length < 2 ^ 32 ∧
        index = state.eventsRemoved + state.events.length := by
  simp only [State.nextNodeEventIndex, okOr_eq_ok, Option.filter_eq_some_iff,
    checkedAdd_eq_some, decide_eq_true_eq, Word.size]
  omega

lemma State.AuthorityExact.putSession_ok (hexact : state.AuthorityExact)
    (hcounter : state.eventsRemoved + state.events.length < 2 ^ 32)
    (hroom : state.authorityWeight + entityWeight key ⟨0, .nodeSession session⟩ < Word.size) :
    ∃ next, State.putSession revision session state key = .ok next ∧ next.AuthorityExact ∧
      next.authorityWeight ≤ state.authorityWeight + entityWeight key ⟨0, .nodeSession session⟩ ∧
      next.eventsRemoved = state.eventsRemoved ∧ next.events.length = state.events.length + 1 := by
  let value : VersionedEntity := ⟨revision, .nodeSession session⟩
  have hvl : entityWeight key value = entityWeight key ⟨0, .nodeSession session⟩ := rfl
  have hsh := share_le_total entityWeight state.entities key
  have hin := total_insert entityWeight state.entities key value
  rw [State.authorityWeight] at hroom
  have hby : state.putBytes key (.nodeSession session) =
      .ok (total entityWeight (state.entities.insert key value) +
        total epochWeight state.nodeEpochs) := by
    refine (@State.AuthorityExact.putBytes_eq_ok _ state _ key value hexact).mpr
      ⟨?_, ?_, ?_, rfl⟩ <;> omega
  refine ⟨_, State.putSession_eq_ok.mpr ⟨_, _, hby,
    State.nextNodeEventIndex_eq_ok.mpr ⟨hcounter, rfl⟩, rfl⟩,
    hexact.withAuthority_put value hby _, ?_, rfl, ?_⟩
  · simp only [State.authorityWeight, State.withAuthority]
    show total entityWeight (state.entities.insert key value) + _ ≤ _
    omega
  · simp [State.withAuthority]

lemma State.AuthorityExact.decideEpoch_ok (hexact : state.AuthorityExact)
    (hroom : state.authorityWeight +
      epochWeight lease.nodeId (state.epochFor lease now) < Word.size) :
    ∃ decided, state.decideEpoch lease now = .ok (decided, state.epochFor lease now) ∧
      decided.AuthorityExact ∧ decided.authorityWeight ≤ state.authorityWeight +
        epochWeight lease.nodeId (state.epochFor lease now) := by
  unfold State.decideEpoch State.epochFor at *
  cases hlv : state.liveLeaseEpoch lease now with
  | some epoch => exact ⟨state, rfl, hexact, le_add_right _ _⟩
  | none =>
    rw [hlv] at hroom
    simp only [Option.getD_none] at hroom ⊢
    generalize saturatingAdd (state.nodeEpochs[lease.nodeId]?.getD 0) 1 = epoch at hroom ⊢
    have hin := total_epochWeight_insert state.nodeEpochs lease.nodeId epoch
    rw [State.authorityWeight] at hroom
    have hle : total epochWeight (state.nodeEpochs.insert lease.nodeId epoch) ≤
        total epochWeight state.nodeEpochs + epochWeight lease.nodeId epoch := by
      rw [hin]
      split <;> omega
    have hby : state.epochBytes lease.nodeId =
        .ok (total entityWeight state.entities + total epochWeight
          (state.nodeEpochs.insert lease.nodeId epoch)) :=
      (hexact.epochBytes_eq_ok epoch).mpr ⟨.inr ⟨by omega, by omega⟩, rfl⟩
    have hst : state.setEpoch lease.nodeId epoch = .ok _ := State.setEpoch_eq_ok.mpr ⟨_, hby, rfl⟩
    refine ⟨_, bind_eq_ok.mpr ⟨_, hst, rfl⟩, hexact.setEpoch hst, ?_⟩
    simp only [State.authorityWeight]
    omega

/-- A registration commits while the counter of events and the authority have
room. -/
lemma State.AuthorityExact.registerNodeSession_ok
    (hexact : state.AuthorityExact) (hnew : state.requests[request]? = none)
    (hwf : WellFormed request lease) (hrenewable : state.Renewable lease now)
    (hcounter : state.eventsRemoved + state.events.length + 1 < 2 ^ 32)
    (hroom : state.authorityWeight + sessionWeight (state.sessionFor lease now) < Word.size) :
    ∃ applied, state.registerNodeSession now request lease = .ok (applied,
      .committed (nextRevision state.revision)
        ⟨request, .registerNode, .nodeSession (state.sessionFor lease now)⟩) := by
  have hsp : state.authorityWeight + epochWeight lease.nodeId (state.epochFor lease now) +
      entityWeight (.nodeSession lease.nodeId lease.sessionId)
        ⟨0, .nodeSession (state.sessionFor lease now)⟩ +
      entityWeight (.currentNodeSession lease.nodeId)
        ⟨0, .nodeSession (state.sessionFor lease now)⟩ < Word.size := by
    have hsm : sessionWeight (state.sessionFor lease now) =
        entityWeight (.nodeSession lease.nodeId lease.sessionId)
          ⟨0, .nodeSession (state.sessionFor lease now)⟩ +
        entityWeight (.currentNodeSession lease.nodeId)
          ⟨0, .nodeSession (state.sessionFor lease now)⟩ +
        epochWeight lease.nodeId (state.epochFor lease now) := rfl
    omega
  have hep : state.authorityWeight +
      epochWeight lease.nodeId (state.epochFor lease now) < Word.size := by
    omega
  obtain ⟨decided, hdc, hde, hwt⟩ := hexact.decideEpoch_ok hep
  obtain ⟨epochs, bytes, rfl⟩ := State.decideEpoch_frame hdc
  let start : State := { state with
    nodeEpochs := epochs
    authorityBytes := bytes
    historyIndexed := false
    revision := nextRevision state.revision }
  have hin : start.AuthorityExact := ⟨hde.indexed, hde.bytes_eq⟩
  have hst : start.authorityWeight ≤ state.authorityWeight +
      epochWeight lease.nodeId (state.epochFor lease now) := hwt
  have hsc : start.eventsRemoved + start.events.length + 1 < 2 ^ 32 := hcounter
  obtain ⟨first, hpf, hfs, hfw, hfr, hfi⟩ :=
    @State.AuthorityExact.putSession_ok _ start (nextRevision state.revision)
      (state.sessionFor lease now)
      (.nodeSession lease.nodeId lease.sessionId) hin (by omega) (by omega)
  obtain ⟨second, hps, _⟩ :=
    @State.AuthorityExact.putSession_ok _ first (nextRevision state.revision)
      (state.sessionFor lease now) (.currentNodeSession lease.nodeId) hfs
      (by omega) (by omega)
  let reply : RequestOutcome := ⟨request, .registerNode, .nodeSession (state.sessionFor lease now)⟩
  refine ⟨{ second with
    requests := second.requests.insert request (.exact reply) }, ?_⟩
  have hls : (!lease.nodeId.isEmpty && !lease.sessionId.isEmpty &&
      decide (lease.leaseTtlNanos ≠ 0)) = true := by
    simp [hwf.node, hwf.session, hwf.lifetime]
  refine (ensure_bind hls).trans ?_
  rw [State.registerValidated, hnew]
  refine (ensure_bind hwf.request).trans ?_
  refine bind_eq_ok.mpr ⟨_, State.nextNodeEventIndex_eq_ok.mpr ⟨by omega, rfl⟩, ?_⟩
  refine (ensure_bind (decide_eq_true hcounter)).trans ?_
  refine (ensure_bind ?_).trans ?_
  · split
    next session hss =>
      exact hrenewable session hss
    · rfl
  refine bind_eq_ok.mpr ⟨_, hdc, ?_⟩
  refine bind_eq_ok.mpr ⟨second, ?_, rfl⟩
  rw [foldlM_cons]
  refine bind_eq_ok.mpr ⟨first, hpf, ?_⟩
  rw [foldlM_cons]
  exact bind_eq_ok.mpr ⟨second, hps, rfl⟩

end Apply

/-! ## Accounting a registration -/

section Account

variable [Footprint] {state changed : State} {request : RequestKey}
variable {fresh : List (Owned WatchEvent)} {completedAt : ℕ}

/-- A new outcome that refers to no command can be accounted while its charge
fits. -/
lemma Accounts.accountRequest_ok {row : Retained} {accounting}
    (hacc : Accounts rows accounting) (hother : ∀ other ∈ rows, other.key ≠ row.key)
    (howned : changed.requests[row.key]? = some row.owned)
    (hcomp : changed.requestCompletion[row.key]? = some row.completion)
    (hgone : state.requests[row.key]? = none) (hok : row.key.isValid = true)
    (hrev : row.completion.revision ≠ 0) (hcmd : commandResultId row.owned.outcome.result = none)
    (hbytes : accounting.index.requestBytes + row.weight < Word.size) :
    ∃ index, changed.accountRequest state accounting row.key =
        .ok { accounting with index := index } ∧ SameEvents index accounting.index ∧
      index.requestBytes = accounting.index.requestBytes + row.weight := by
  have hsm := hacc.tracks.bytes_eq
  have hft : ((row :: rows).map Retained.weight).sum < Word.size := by
    rw [map_cons, sum_cons, ← hsm, add_comm]
    exact hbytes
  obtain ⟨index, hta⟩ := hacc.tracks.trackRequest_ok hother hok hrev hft
  obtain ⟨htr, _, _, heq⟩ := hacc.tracks.trackRequest hta
  refine ⟨index, ?_, heq, ?_⟩
  · have hdr : accounting.dropPrevious state row.key = .ok accounting := by
      rw [Accounting.dropPrevious, hgone]
    have had : accounting.command row.owned.outcome.result true = .ok accounting := by
      rw [Accounting.command, accountCommandResult, hcmd]
      rfl
    have hwt : row.weight < Word.size := by omega
    refine bind_eq_ok.mpr ⟨_, okOr_eq_ok.mpr howned, ?_⟩
    refine bind_eq_ok.mpr ⟨_, okOr_eq_ok.mpr hcomp, ?_⟩
    refine bind_eq_ok.mpr ⟨_, hdr, ?_⟩
    refine bind_eq_ok.mpr ⟨_, had, ?_⟩
    exact Accounting.request_eq_ok.mpr ⟨hwt, index, hta, rfl⟩
  · rw [htr.bytes_eq, without_eq_self hother, map_cons, sum_cons, ← hsm, add_comm]

/-- The events of a new revision can be accounted while their charge fits. -/
lemma EventsOrdered.accountEvents_ok (hord : EventsOrdered state)
    (hmap : Charts (eventRows state.eventCompletion state.events) index)
    (hrev : changed.revision = state.revision + 1)
    (hlog : changed.events = state.events ++ fresh) (hnew : fresh ≠ [])
    (hnum : index.eventCount + fresh.length < Word.size)
    (hbytes : index.eventBytes + groupWeight fresh < Word.size) :
    ∃ indexed, changed.accountEvents index state.events.length completedAt =
        .ok indexed ∧ SameRequests indexed index ∧
      indexed.eventCount = index.eventCount + fresh.length ∧
      indexed.eventBytes = index.eventBytes + groupWeight fresh := by
  let row : ℕ × EventMeta := (changed.revision, ⟨some completedAt, fresh.length, groupWeight fresh⟩)
  have ho : ∀ other ∈ eventRows state.eventCompletion state.events, other.1 ≠ row.1 := by
    intro other hm
    obtain ⟨group, hgr, rfl⟩ := mem_map.mp hm
    obtain ⟨event, hev, hgrR⟩ := groupRevision_mem hgr
    have hle := hord.below event hev
    show groupRevision group ≠ changed.revision
    omega
  have hln : fresh.length ≠ 0 := mt length_eq_zero_iff.mp hnew
  have hft : ChartsFit (row :: eventRows state.eventCompletion state.events) := by
    refine ⟨?_, ?_⟩
    · rw [map_cons, sum_cons, ← hmap.count_eq, add_comm]
      exact hnum
    · rw [map_cons, sum_cons, ← hmap.bytes_eq, add_comm]
      exact hbytes
  have hnn : row.1 ≠ 0 := by
    show changed.revision ≠ 0
    omega
  obtain ⟨indexed, htr⟩ := hmap.trackEvents_ok ho hnn hln groupWeight_ne_zero hft
  obtain ⟨hnx, heq⟩ := hmap.trackEvents htr
  refine ⟨indexed, ?_, heq, ?_, ?_⟩
  · have hch : eventsCharge fresh = .ok (fresh.length, groupWeight fresh) := by
      rw [eventsCharge_eq_ok, if_neg hnew]
      exact ⟨rfl, rfl, by omega, by omega⟩
    rw [State.accountEvents, hlog, drop_left, hch, ok_bind]
    dsimp only
    rw [if_pos (pos_of_ne_zero hln)]
    exact htr
  · rw [hnx.count_eq, map_cons, sum_cons, ← hmap.count_eq, add_comm]
  · rw [hnx.bytes_eq, map_cons, sum_cons, ← hmap.bytes_eq, add_comm]

/-- What accounting a decision leaves of the totals of the index. -/
structure Adds (before after : Index) (outcome count bytes : ℕ) : Prop where
  requestBytes : after.requestBytes = before.requestBytes + outcome
  eventCount : after.eventCount = before.eventCount + count
  eventBytes : after.eventBytes = before.eventBytes + bytes

/-- One new outcome and one group of events are accounted while their charges
fit. -/
lemma State.Exact.accountHistoryChanges_ok {completion} (hexact : state.Exact)
    (hcosts : changed.accounting = state.accounting) (hrev : changed.revision = state.revision + 1)
    (hlog : changed.events = state.events ++ fresh) (hnew : fresh ≠ [])
    (howned : changed.requests[request]? = some owned)
    (hcomp : changed.requestCompletion[request]? = some completion)
    (hdone : completion.revision ≠ 0) (hok : request.isValid = true)
    (hgone : state.requests[request]? = none) (hcmd : commandResultId owned.outcome.result = none)
    (hbytes : state.history.requestBytes + outcomeWeight owned < Word.size)
    (hnum : state.history.eventCount + fresh.length < Word.size)
    (hgroup : state.history.eventBytes + groupWeight fresh < Word.size) :
    ∃ next, changed.accountHistoryChanges state [request] state.events.length
        completedAt = .ok next ∧
      Adds state.history next.history (outcomeWeight owned) fresh.length (groupWeight fresh) := by
  obtain ⟨rows, hls, hacc⟩ := hexact.outcomes
  let row : Retained := ⟨request, completion, owned⟩
  have ho : ∀ other ∈ rows, other.key ≠ row.key := by
    intro other hm hky
    have hrt := ((hls.mem_iff other).mp hm).1
    rw [hky, hgone] at hrt
    cases hrt
  obtain ⟨tracked, hrq, heq, hrb⟩ :=
    @Accounts.accountRequest_ok _ state changed rows row state.accounting
      hacc ho howned hcomp hgone hok hdone hcmd
      hbytes
  obtain ⟨indexed, hat, hsr, hec, heb⟩ :=
    @EventsOrdered.accountEvents_ok _ state changed fresh completedAt tracked
      hexact.events.toEventsOrdered (hexact.events.charts.of_same heq)
      hrev hlog hnew (by rw [heq.eventCount]; exact hnum)
      (by rw [heq.eventBytes]; exact hgroup)
  have hrg : state.events.length ≤ changed.events.length := by
    rw [hlog, length_append]
    omega
  let accounted : Accounting := ⟨indexed, state.accounting.commands, state.accounting.commandBytes⟩
  refine ⟨{ changed.withAccounting accounted with historyIndexed := true }, ?_, ?_⟩
  · have hfl : [request].foldlM (changed.accountRequest state)
        changed.accounting = .ok { state.accounting with index := tracked } := by
      rw [foldlM_cons, hcosts]
      exact bind_eq_ok.mpr ⟨_, hrq, rfl⟩
    refine bind_eq_ok.mpr ⟨_, hfl, ?_⟩
    refine (ensure_bind (decide_eq_true hrg)).trans ?_
    exact bind_eq_ok.mpr ⟨indexed, hat, rfl⟩
  · refine ⟨?_, ?_, ?_⟩
    · exact hsr.requestBytes.trans hrb
    · refine hec.trans ?_
      rw [heq.eventCount]
      rfl
    · refine heb.trans ?_
      rw [heq.eventBytes]
      rfl

end Account

/-! ## Preparing a registration -/

section Prepare

variable [Footprint]

section

variable (state : State) (lease : NodeSessionLease) (now : ℕ)

/-- The epochs after a registration: those before it for the live process, the
next epoch of the node for any other. -/
def State.epochsAfter : ExtTreeMap String ℕ :=
  match state.liveLeaseEpoch lease now with
  | some _ => state.nodeEpochs
  | none => state.nodeEpochs.insert lease.nodeId (state.epochFor lease now)

/-- The outcome of a registration. -/
def State.replyFor (request : RequestKey) : RequestOutcome :=
  ⟨request, .registerNode, .nodeSession (state.sessionFor lease now)⟩

/-- The events of a registration continue the numbering of the store. -/
def State.eventsFor : List (Owned WatchEvent) :=
  (sessionEvents (nextRevision state.revision)
    (state.eventsRemoved + state.events.length)
    (state.sessionFor lease now)).map .exact

end

omit [Footprint] in
lemma nextRevision_of_lt (hlt : revision + 1 < Word.size) : nextRevision revision = revision + 1 :=
  min_eq_left (le_pred_of_lt hlt)

/-- What a registration leaves of a state. -/
structure Enrols (state : State) (lease : NodeSessionLease) (now : ℕ)
    (request : RequestKey) (next : State) : Prop where
  entities : next.entities = (state.entities.insert
      (.nodeSession lease.nodeId lease.sessionId)
      ⟨nextRevision state.revision, .nodeSession (state.sessionFor lease now)⟩).insert
    (.currentNodeSession lease.nodeId)
    ⟨nextRevision state.revision, .nodeSession (state.sessionFor lease now)⟩
  nodeEpochs : next.nodeEpochs = state.epochsAfter lease now
  requests : next.requests =
    state.requests.insert request (.exact (state.replyFor lease now request))
  events : next.events = state.events ++ state.eventsFor lease now
  eventsRemoved : next.eventsRemoved = state.eventsRemoved
  revision : next.revision = nextRevision state.revision

variable {state next indexed applied : State} {lease : NodeSessionLease}
variable {request : RequestKey} {now completedAt byteLimit revision : ℕ}
variable {reply : RequestOutcome}

lemma State.decideEpoch_eq (hdecide : state.decideEpoch lease now = .ok (decided, epoch)) :
    epoch = state.epochFor lease now ∧ ∃ bytes, decided = { state with
      nodeEpochs := state.epochsAfter lease now, authorityBytes := bytes } := by
  unfold State.decideEpoch at hdecide
  unfold State.epochsAfter State.epochFor
  cases hlv : state.liveLeaseEpoch lease now with
  | some live =>
    rw [hlv] at hdecide
    cases hdecide
    exact ⟨rfl, _, rfl⟩
  | none =>
    rw [hlv] at hdecide
    obtain ⟨advanced, hst, hdecide⟩ := bind_eq_ok.mp hdecide
    cases hdecide
    obtain ⟨bytes, _, rfl⟩ := State.setEpoch_eq_ok.mp hst
    exact ⟨rfl, bytes, rfl⟩

lemma Enrols.of_registered
    (hreg : Registered state now request lease applied revision reply decided first second epoch) :
    reply = state.replyFor lease now request ∧ Enrols state lease now request applied := by
  obtain ⟨rfl, bytes, rfl⟩ := State.decideEpoch_eq hreg.decides
  obtain ⟨_, firstIndex, _, hfs, rfl⟩ := State.putSession_eq_ok.mp hreg.putsFirst
  obtain ⟨_, secondIndex, _, hsn, rfl⟩ := State.putSession_eq_ok.mp hreg.putsSecond
  obtain ⟨_, rfl⟩ := State.nextNodeEventIndex_eq_ok.mp hfs
  obtain ⟨_, rfl⟩ := State.nextNodeEventIndex_eq_ok.mp hsn
  refine ⟨hreg.reply_eq, ?_⟩
  rw [hreg.applied_eq, hreg.reply_eq, hreg.revision_eq]
  refine ⟨rfl, rfl, rfl, ?_, rfl, rfl⟩
  simp [State.withAuthority, State.eventsFor, sessionEvents, State.sessionFor,
    add_assoc, NodeSessionLease.session]

variable [Codec]

lemma Enrols.of_prepare (hexact : state.Exact)
    (hprep : state.prepareNodeRecord now request lease completedAt
      byteLimit = .ok (next, .committed revision reply, record)) :
    reply = state.replyFor lease now request ∧ Enrols state lease now request next := by
  obtain ⟨_, indexed, applied, _, _, hpr⟩ := State.prepareNodeRecord_committed hprep
  have hid := hpr.ensured
  rw [hexact.ensureHistoryIndex] at hid
  cases hid
  obtain ⟨_, _, _, _, hrg⟩ := State.registerNodeSession_committed hpr.committed
  obtain ⟨hrp, hen⟩ := Enrols.of_registered hrg
  obtain ⟨_, rfl⟩ := State.accountHistoryChanges_frame hpr.accounted
  exact ⟨hrp, ⟨hen.entities, hen.nodeEpochs, hen.requests,
    hen.events, hen.eventsRemoved, hen.revision⟩⟩

/-- Every counter and charge on the way of a registration has room. -/
structure Room (state : State) (lease : NodeSessionLease) (now : ℕ)
    (request : RequestKey) (completedAt byteLimit : ℕ) : Prop where
  counter : state.eventsRemoved + state.events.length + 1 < 2 ^ 32
  revision : state.revision + 1 < Word.size
  authority : state.authorityWeight + sessionWeight (state.sessionFor lease now) < Word.size
  outcomes : state.history.requestBytes +
    outcomeWeight (.exact (state.replyFor lease now request)) < Word.size
  events : state.history.eventCount + 2 < Word.size
  eventBytes : state.history.eventBytes + groupWeight (state.eventsFor lease now) < Word.size
  record : ∀ epochs ∈ [[], [(lease.nodeId, state.epochFor lease now)]],
    RecordFits byteLimit (state.sessionFor lease now)
      (sessionRecord state.revision (state.eventsRemoved + state.events.length)
        request (state.sessionFor lease now) completedAt epochs)

omit [Codec] [Footprint] in
lemma State.epochFor_ne_zero (hlive : state.liveLeaseEpoch lease now = none) :
    state.epochFor lease now ≠ 0 := by
  rw [State.epochFor, hlive, Option.getD_none, saturatingAdd, Word.size]
  omega

omit [Codec] [Footprint] in
lemma decidedEpochs_ok (hnode : lease.nodeId.isEmpty = false)
    (hepochs : applied.nodeEpochs = state.epochsAfter lease now) :
    ∃ epochs ∈ [[], [(lease.nodeId, state.epochFor lease now)]],
      decidedEpochs state applied lease.nodeId = .ok epochs ∧
      checkEpochs epochs = true ∧ epochs.length ≤ 1 := by
  rw [decidedEpochs, hepochs]
  unfold State.epochsAfter
  cases h : state.liveLeaseEpoch lease now with
  | some live => exact ⟨[], by simp, if_pos rfl, rfl, by simp⟩
  | none =>
    dsimp only
    rw [ExtTreeMap.getElem?_insert_self]
    split
    · exact ⟨[], by simp, rfl, rfl, by simp⟩
    · refine ⟨[(lease.nodeId, state.epochFor lease now)], by simp, rfl, ?_, by simp⟩
      simp [checkEpochs, hnode, State.epochFor_ne_zero h]

lemma State.Exact.prepareNodeRecord_ok (hexact : state.Exact)
    (hgone : state.requests[request]? = none)
    (hwf : WellFormed request lease) (hrenewable : state.Renewable lease now)
    (hroom : Room state lease now request completedAt byteLimit) :
    ∃ next record, state.prepareNodeRecord now request lease completedAt
        byteLimit = .ok (next, .committed (nextRevision state.revision)
          (state.replyFor lease now request), some record) ∧ Adds state.history next.history
        (outcomeWeight (.exact (state.replyFor lease now request)))
        (state.eventsFor lease now).length
        (groupWeight (state.eventsFor lease now)) := by
  have hrv := nextRevision_of_lt hroom.revision
  let indexed : State := { state with
    authorityIndexed := true, historyIndexed := true }
  have hch : indexed.AuthorityExact := ⟨rfl, hexact.weight⟩
  obtain ⟨applied, hap⟩ :=
    hch.registerNodeSession_ok hgone hwf hrenewable hroom.counter hroom.authority
  obtain ⟨_, _, _, _, hrg⟩ := State.registerNodeSession_committed hap
  obtain ⟨_, hen⟩ := Enrols.of_registered hrg
  obtain ⟨epochs, hls, hdc, hce, hc⟩ :=
    @decidedEpochs_ok state applied lease now hwf.node hen.nodeEpochs
  have hsn : applied.eventsSince state.events.length = sessionEvents (state.revision + 1)
        (state.eventsRemoved + state.events.length)
        (state.sessionFor lease now) := by
    apply eventsSince_append
    rw [← hrv]
    exact hen.events
  have hrc := captureSession hwf.request hroom.revision hroom.counter hce hc
    (hroom.record epochs hls)
  obtain ⟨hac, hco, _, har⟩ := hrg.frame
  let changed := (applied.completeRequests completedAt
    (nextRevision state.revision) [request]).completeEvents completedAt
      (nextRevision state.revision) (applied.eventsSince state.events.length)
  have hcr : changed.revision = state.revision + 1 := by
    rw [← hrv]
    exact har
  have how : changed.requests[request]? = some (.exact (state.replyFor lease now request)) := by
    show applied.requests[request]? = _
    rw [hen.requests, ExtTreeMap.getElem?_insert_self]
    rfl
  have hcm : changed.requestCompletion[request]? =
      some ⟨completedAt, nextRevision state.revision⟩ := by
    show (applied.completeRequests completedAt (nextRevision state.revision)
      [request]).requestCompletion[request]? = _
    rw [State.completeRequests_getElem?, if_pos (mem_singleton_self _)]
  have hnn : nextRevision state.revision ≠ 0 := by omega
  obtain ⟨next, hacc, had⟩ :=
    @State.Exact.accountHistoryChanges_ok _ state changed request
      (state.eventsFor lease now) completedAt _ _ hexact hac
      hcr hen.events (by simp [State.eventsFor, sessionEvents])
      how hcm hnn hwf.request hgone rfl
      hroom.outcomes hroom.events hroom.eventBytes
  let record := sessionRecord state.revision
    (state.eventsRemoved + state.events.length) request
    (state.sessionFor lease now) completedAt epochs
  refine ⟨next, record, ?_, had⟩
  refine bind_eq_ok.mpr ⟨indexed, hexact.ensureHistoryIndex, ?_⟩
  refine bind_eq_ok.mpr ⟨_, hap, ?_⟩
  refine bind_eq_ok.mpr ⟨epochs, hdc, ?_⟩
  refine bind_eq_ok.mpr ⟨record, ?_, ?_⟩
  · rw [hsn]
    dsimp only [indexed]
    rw [hrv]
    exact hrc
  · exact bind_eq_ok.mpr ⟨next, hacc, rfl⟩

end Prepare

end AgentDx.Store
