import AgentDx.Store.Replay

/-!
# Replaying a node registration

A registration sets the epoch of its node before it puts the session under its
two keys; the replay puts first and sets the epoch last.  Every charge on the
way is the total over the authority at that point, so the two orders meet in the
same state.
-/

namespace AgentDx.Store

open Dfs Std Word OrderedMap Result State

variable {key : MetaKey} {state decided : State} {lease : NodeSessionLease}
  {now epoch : ℕ} {epochs : List (String × ℕ)}

section Epoch

variable [Footprint]

lemma State.AuthorityExact.putBytes_of_epochs {fewer more : State} (versioned : VersionedEntity)
    (hfewer : fewer.AuthorityExact) (hmore : more.AuthorityExact)
    (hents : fewer.entities = more.entities)
    (hepochs : total epochWeight fewer.nodeEpochs ≤ total epochWeight more.nodeEpochs)
    (hput : more.putBytes key versioned.entity = .ok bytes) :
    ∃ smaller, fewer.putBytes key versioned.entity = .ok smaller := by
  obtain ⟨hh, hnw, hft, _⟩ := hmore.putBytes_eq_ok.mp hput
  rw [← hents] at hh hft
  exact ⟨_, hfewer.putBytes_eq_ok.mpr ⟨hh, hnw, by omega, rfl⟩⟩

/-- What a registration does to the epochs: nothing, or it advances the epoch
of its node. -/
lemma State.decideEpoch_cases (hexact : state.AuthorityExact)
    (hbound : ∀ old, state.nodeEpochs[lease.nodeId]? = some old → old < Word.size)
    (hdecide : state.decideEpoch lease now = .ok (decided, epoch)) :
    decided = state ∨ ∃ next bytes, state.nodeEpochs[lease.nodeId]? ≠ some next ∧ next < Word.size ∧
        (∀ old, state.nodeEpochs[lease.nodeId]? = some old → old ≤ next) ∧
        state.epochBytes lease.nodeId = .ok bytes ∧ decided = { state with
          nodeEpochs := state.nodeEpochs.insert lease.nodeId next
          authorityBytes := bytes } := by
  unfold State.decideEpoch at hdecide
  split at hdecide
  · cases hdecide
    exact .inl rfl
  · obtain ⟨advanced, hst, hdecide⟩ := bind_eq_ok.mp hdecide
    cases hdecide
    obtain ⟨bytes, hby, rfl⟩ := setEpoch_eq_ok.mp hst
    by_cases heq : state.nodeEpochs[lease.nodeId]? =
        some (saturatingAdd (state.nodeEpochs[lease.nodeId]?.getD 0) 1)
    · left
      have hep := insert_self heq
      have htt := ((hexact.epochBytes_eq_ok (saturatingAdd
        (state.nodeEpochs[lease.nodeId]?.getD 0) 1)).mp hby).2
      rw [hep] at htt ⊢
      rw [htt, ← State.authorityWeight, ← hexact.bytes_eq]
    · refine .inr ⟨_, bytes, heq, ?_, ?_, hby, rfl⟩
      · exact saturatingAdd_lt _ _
      · intro old hol
        have hlt := hbound old hol
        simp only [hol, Option.getD_some, saturatingAdd]
        omega

/-- The epochs a registration decides, as its record carries them. -/
structure Settles (before after : State) (epochs : List (String × ℕ)) : Prop where
  monotone : ∀ item ∈ epochs, ∀ old, before.nodeEpochs[item.1]? = some old → old ≤ item.2
  bounded : ∀ item ∈ epochs, item.2 < Word.size
  cases : after.nodeEpochs = before.nodeEpochs ∧ epochs = [] ∨
    ∃ node next, after.nodeEpochs = before.nodeEpochs.insert node next ∧ epochs = [(node, next)] ∧
      (before.nodeEpochs.contains node = true ∨ epochWeight node next < Word.size)

lemma Settles.of_decidedEpochs (hexact : state.AuthorityExact)
    (hbound : ∀ old, state.nodeEpochs[lease.nodeId]? = some old → old < Word.size)
    (hdecide : state.decideEpoch lease now = .ok (decided, epoch))
    (hepochs : decidedEpochs state decided lease.nodeId = .ok epochs) :
    Settles state decided epochs := by
  unfold decidedEpochs at hepochs
  rcases decideEpoch_cases hexact hbound hdecide with
    rfl | ⟨next, bytes, hnx, hlt, hmn, hby, rfl⟩
  · rw [if_pos rfl] at hepochs
    cases hepochs
    exact ⟨by simp, by simp, .inl ⟨rfl, rfl⟩⟩
  · simp only [ExtTreeMap.getElem?_insert_self, hnx.symm, if_false] at hepochs
    cases hepochs
    refine ⟨by simpa using hmn, by simpa using hlt, .inr ⟨lease.nodeId, next, rfl, rfl, ?_⟩⟩
    exact ((hexact.epochBytes_eq_ok next).mp hby).1.imp_right And.left

end Epoch

/-! ## What preparing a registration does -/

variable {applied first second : State} {request : RequestKey} {revision : ℕ}
  {reply : RequestOutcome}

section Prepare

variable [Footprint]

/-- The session a registration stores. -/
def NodeSessionLease.session (lease : NodeSessionLease) (now epoch : ℕ) : NodeSession where
  nodeId := lease.nodeId
  sessionId := lease.sessionId
  grpcAddr := lease.grpcAddr
  dataAddr := lease.dataAddr
  restAddr := lease.restAddr
  ownerfsEnabled := lease.ownerfsEnabled
  storageDevices := lease.storageDevices
  leaseEpoch := epoch
  expiresAtUnixMs := saturatingAdd now (min (asMillis lease.leaseTtlNanos) (Word.size - 1))

/-- The stages of a committed registration. -/
structure Registered (state : State) (now : ℕ) (request : RequestKey)
    (lease : NodeSessionLease) (applied : State) (revision : ℕ)
    (reply : RequestOutcome) (decided first second : State)
    (epoch : ℕ) : Prop where
  absent : state.requests[request]? = none
  reply_eq : reply = ⟨request, .registerNode, .nodeSession (lease.session now epoch)⟩
  decides : state.decideEpoch lease now = .ok (decided, epoch)
  revision_eq : revision = nextRevision decided.revision
  putsFirst : State.putSession revision (lease.session now epoch)
    { decided with historyIndexed := false, revision := revision }
    (.nodeSession lease.nodeId lease.sessionId) = .ok first
  putsSecond : State.putSession revision (lease.session now epoch) first
    (.currentNodeSession lease.nodeId) = .ok second
  applied_eq : applied = { second with
    requests := second.requests.insert request (.exact reply) }

lemma State.registerNodeSession_committed (henrol : state.registerNodeSession now request lease =
      .ok (applied, .committed revision reply)) :
    ∃ decided first second epoch, Registered state now request lease applied
      revision reply decided first second epoch := by
  obtain ⟨_, _, henrol⟩ := bind_eq_ok.mp henrol
  unfold State.registerValidated at henrol
  split at henrol
  · cases henrol
  next hgone =>
    simp only [bind_eq_ok] at henrol
    obtain ⟨_, _, eventIndex, _, _, _, _, _, ⟨decided, epoch⟩, hdecide, second, hputs,
      henrol⟩ := henrol
    rw [List.foldlM_cons] at hputs
    obtain ⟨first, hone, hputs⟩ := bind_eq_ok.mp hputs
    rw [List.foldlM_cons] at hputs
    obtain ⟨last, htwo, hputs⟩ := bind_eq_ok.mp hputs
    cases hputs
    cases henrol
    exact ⟨decided, first, second, epoch, hgone, rfl, hdecide, rfl, hone, htwo, rfl⟩

lemma State.putSession_eq_ok : State.putSession revision session state key = .ok next ↔
      ∃ bytes eventIndex, state.putBytes key (.nodeSession session) = .ok bytes ∧
        state.nextNodeEventIndex = .ok eventIndex ∧
        next = state.withAuthority
          (state.entities.insert key ⟨revision, .nodeSession session⟩) bytes
          (state.events ++ [.exact ⟨revision, eventIndex, key, .put (.nodeSession session)⟩]) := by
  constructor
  · intro hpt
    obtain ⟨stored, hst, hpt⟩ := bind_eq_ok.mp hpt
    obtain ⟨bytes, hby, rfl⟩ := putAuthority_eq_ok.mp hst
    obtain ⟨eventIndex, hix, hpt⟩ := bind_eq_ok.mp hpt
    cases hpt
    exact ⟨bytes, eventIndex, hby, hix, rfl⟩
  · rintro ⟨bytes, eventIndex, hby, hix, rfl⟩
    refine bind_eq_ok.mpr ⟨_, putAuthority_eq_ok.mpr ⟨bytes, hby, rfl⟩, ?_⟩
    exact bind_eq_ok.mpr ⟨eventIndex, hix, rfl⟩

lemma State.decideEpoch_frame (hdecide : state.decideEpoch lease now = .ok (decided, epoch)) :
    ∃ nodeEpochs bytes, decided = { state with
      nodeEpochs := nodeEpochs, authorityBytes := bytes } := by
  unfold State.decideEpoch at hdecide
  split at hdecide
  · cases hdecide
    exact ⟨_, _, rfl⟩
  · obtain ⟨advanced, h, hdecide⟩ := bind_eq_ok.mp hdecide
    cases hdecide
    obtain ⟨bytes, _, rfl⟩ := setEpoch_eq_ok.mp h
    exact ⟨_, _, rfl⟩

lemma Registered.requests_eq
    (hreg : Registered state now request lease applied revision reply decided first second epoch) :
    applied.requests = state.requests.insert request (.exact reply) := by
  obtain ⟨_, _, rfl⟩ := decideEpoch_frame hreg.decides
  obtain ⟨_, _, _, _, rfl⟩ := putSession_eq_ok.mp hreg.putsFirst
  obtain ⟨_, _, _, _, rfl⟩ := putSession_eq_ok.mp hreg.putsSecond
  rw [hreg.applied_eq]
  rfl

lemma Registered.nodeEpochs_eq
    (hreg : Registered state now request lease applied revision reply decided first second epoch) :
    applied.nodeEpochs = decided.nodeEpochs := by
  obtain ⟨_, _, _, _, rfl⟩ := putSession_eq_ok.mp hreg.putsFirst
  obtain ⟨_, _, _, _, rfl⟩ := putSession_eq_ok.mp hreg.putsSecond
  rw [hreg.applied_eq]
  rfl

end Prepare

/-! ## Replaying the puts of a registration -/

section ReplayPuts

variable [Footprint]

lemma State.AuthorityExact.withAuthority_put (value : VersionedEntity)
    (hexact : state.AuthorityExact) (hbytes : state.putBytes key value.entity = .ok bytes)
    (events) :
    (state.withAuthority (state.entities.insert key value) bytes events).AuthorityExact :=
  ⟨hexact.indexed, (hexact.putBytes_eq_ok.mp hbytes).2.2.2⟩

/-- The replay holds what the registration holds, but for the epoch that it
sets last. -/
structure Trails (replayed registered : State) : Prop where
  replayed_exact : replayed.AuthorityExact
  registered_exact : registered.AuthorityExact
  entities_eq : replayed.entities = registered.entities
  events_eq : replayed.events = registered.events
  epochs_le : total epochWeight replayed.nodeEpochs ≤ total epochWeight registered.nodeEpochs

variable {replayed registered : State}

variable (htrails : Trails replayed registered)

include htrails

lemma Trails.putSession {next}
    (hput : State.putSession revision session registered key = .ok next) :
    ∃ event bytes, registered.nextNodeEventIndex = .ok event.eventIndex ∧
      next.authorityBytes < Word.size ∧
      (∃ entities bytes events, next = registered.withAuthority entities bytes events) ∧
      next.events = registered.events ++ [.exact event] ∧
      replayed.replayEvent event = .ok (replayed.withAuthority next.entities bytes next.events) ∧
      Trails (replayed.withAuthority next.entities bytes next.events) next := by
  obtain ⟨bytes, eventIndex, hby, hix, rfl⟩ := putSession_eq_ok.mp hput
  let value : VersionedEntity := ⟨revision, .nodeSession session⟩
  obtain ⟨smaller, hsm⟩ :=
    htrails.replayed_exact.putBytes_of_epochs value htrails.registered_exact
      htrails.entities_eq htrails.epochs_le hby
  refine ⟨⟨revision, eventIndex, key, .put (.nodeSession session)⟩, smaller,
    hix, ?_, ⟨_, _, _, rfl⟩, rfl, ?_, ?_⟩
  · obtain ⟨_, _, hft, heq⟩ :=
      htrails.registered_exact.putBytes_eq_ok.mp
        (show registered.putBytes key value.entity = .ok bytes from hby)
    exact heq ▸ hft
  · refine bind_eq_ok.mpr ⟨_, putAuthority_eq_ok.mpr ⟨smaller, hsm, rfl⟩, ?_⟩
    simp [State.withAuthority, htrails.entities_eq, htrails.events_eq]
  · refine ⟨?_, htrails.registered_exact.withAuthority_put value hby _, rfl, rfl, htrails.epochs_le⟩
    have hex := htrails.replayed_exact.withAuthority_put value hsm
    rw [htrails.entities_eq] at hex
    exact hex _

lemma Trails.authorityBytes_eq (hepochs : replayed.nodeEpochs = registered.nodeEpochs) :
    replayed.authorityBytes = registered.authorityBytes := by
  rw [htrails.replayed_exact.bytes_eq, htrails.registered_exact.bytes_eq,
    State.authorityWeight, State.authorityWeight, htrails.entities_eq, hepochs]

lemma Trails.epochBytes_eq (hepochs : registered.nodeEpochs = replayed.nodeEpochs.insert node epoch)
    (hfits : registered.authorityBytes < Word.size)
    (hweight : replayed.nodeEpochs.contains node = true ∨ epochWeight node epoch < Word.size) :
    replayed.epochBytes node = .ok registered.authorityBytes := by
  have h := htrails.registered_exact.bytes_eq
  rw [State.authorityWeight, ← htrails.entities_eq, hepochs] at h
  refine (htrails.replayed_exact.epochBytes_eq_ok epoch).mpr ⟨?_, h⟩
  exact hweight.imp_right fun hweight => ⟨hweight, h ▸ hfits⟩

lemma Trails.settle (hsettles : Settles replayed registered epochs)
    (hfits : registered.authorityBytes < Word.size) :
    epochs.foldlM (fun state item => state.setEpoch item.1 item.2) replayed = .ok { replayed with
        nodeEpochs := registered.nodeEpochs
        authorityBytes := registered.authorityBytes } := by
  rcases hsettles.cases with
    ⟨hep, rfl⟩ | ⟨node, next, hep, rfl, hwt⟩
  · rw [hep, ← htrails.authorityBytes_eq hep.symm]
    rfl
  · rw [List.foldlM_cons]
    refine bind_eq_ok.mpr ⟨_, setEpoch_eq_ok.mpr ⟨_, htrails.epochBytes_eq hep hfits hwt, rfl⟩, ?_⟩
    rw [hep]
    rfl

end ReplayPuts

/-! ## Replaying a registration -/

section ReplayNode

variable [Footprint] [Codec]

/-- The decision captured for a committed registration. -/
def NodeSessionLease.decision (state applied : State) (request : RequestKey)
    (reply : RequestOutcome) (epochs : List (String × ℕ)) (completedAt : ℕ) : DecisionInput where
  request := request
  operation := .registerNode
  revisionBefore := state.revision
  revisionAfter := nextRevision state.revision
  completedAtUnixMs := completedAt
  events := applied.eventsSince state.events.length
  outcomes := [reply]
  reply := reply
  nodeEpochs := epochs

/-- The stages of a committed preparation of a registration. -/
structure PreparedNode (state : State) (now : ℕ) (request : RequestKey)
    (lease : NodeSessionLease) (completedAt byteLimit : ℕ) (prepared : State)
    (revision : ℕ) (reply : RequestOutcome) (record : RecordDecision)
    (indexed applied : State) (epochs : List (String × ℕ)) : Prop where
  ensured : state.ensureHistoryIndex = .ok indexed
  committed : indexed.registerNodeSession now request lease =
    .ok (applied, .committed revision reply)
  epochs_eq : decidedEpochs state applied lease.nodeId = .ok epochs
  advanced : revision = nextRevision state.revision
  captured : RecordDecision.new (NodeSessionLease.decision state applied request
    reply epochs completedAt) byteLimit = .ok record
  accounted : State.accountHistoryChanges
    ((applied.completeRequests completedAt revision
      [reply.request]).completeEvents completedAt revision
        (applied.eventsSince state.events.length)) state
    [reply.request] state.events.length completedAt = .ok prepared

variable {prepared : State} {completedAt byteLimit : ℕ}

lemma State.prepareNodeRecord_committed
    (hprep : state.prepareNodeRecord now request lease completedAt
      byteLimit = .ok (prepared, .committed revision reply, record)) :
    ∃ decided indexed applied epochs, record = some decided ∧
      PreparedNode state now request lease completedAt byteLimit prepared
        revision reply decided indexed applied epochs := by
  obtain ⟨indexed, hid, hprep⟩ := bind_eq_ok.mp hprep
  obtain ⟨⟨applied, outcome⟩, hap, hprep⟩ := bind_eq_ok.mp hprep
  cases outcome with
  | conditionFailed _ _ => cases hprep
  | committed revision reply =>
    obtain ⟨epochs, hep, hprep⟩ := bind_eq_ok.mp hprep
    obtain ⟨decided, hdc, hprep⟩ := bind_eq_ok.mp hprep
    obtain ⟨accounted, hac, hprep⟩ := bind_eq_ok.mp hprep
    cases hprep
    obtain ⟨_, _, _, _, hrg⟩ := registerNodeSession_committed hap
    obtain ⟨hpr, _, _⟩ := ensureHistoryIndex_persisted hid
    have heq : indexed.revision = state.revision := congrArg Persisted.revision hpr
    obtain ⟨_, _, hfr⟩ := decideEpoch_frame hrg.decides
    have hrv := hrg.revision_eq
    rw [hfr] at hrv
    simp only [heq] at hrv
    subst hrv
    exact ⟨decided, indexed, applied, epochs, rfl, hid, hap, hep, rfl, hdc, hac⟩

variable {indexed : State}

omit [Codec] in
/-- The state a registration starts its puts from, and the one its replay starts
from. -/
lemma Trails.start (events) (hexact : indexed.AuthorityExact)
    (hbound : ∀ old, indexed.nodeEpochs[lease.nodeId]? = some old → old < Word.size)
    (hdecide : indexed.decideEpoch lease now = .ok (decided, epoch)) :
    Trails (indexed.completeEvents completedAt revision events)
      { decided with historyIndexed := false, revision := revision } := by
  have hrp : (indexed.completeEvents completedAt revision
      events).AuthorityExact := ⟨hexact.indexed, hexact.bytes_eq⟩
  rcases decideEpoch_cases hexact hbound hdecide with
    rfl | ⟨next, bytes, _, _, _, hby, rfl⟩
  · exact ⟨hrp, ⟨hexact.indexed, hexact.bytes_eq⟩, rfl, rfl, le_rfl⟩
  · refine ⟨hrp, ⟨hexact.indexed, ((hexact.epochBytes_eq_ok next).mp hby).2⟩, rfl, rfl, ?_⟩
    exact (total_epochWeight_insert indexed.nodeEpochs lease.nodeId next).ge.trans'
      (Nat.le_add_right _ _)

lemma PreparedNode.settles (hexact : indexed.AuthorityExact)
    (hbound : ∀ (node : String) old, state.nodeEpochs[node]? = some old → old < Word.size)
    (hpre : PreparedNode state now request lease completedAt byteLimit prepared revision reply
      record indexed applied epochs)
    (hreg : Registered indexed now request lease applied revision reply decided first second
      epoch) :
    Settles indexed decided epochs := by
  obtain ⟨hpe, _, _⟩ := ensureHistoryIndex_persisted hpre.ensured
  have hnd : indexed.nodeEpochs = state.nodeEpochs := congrArg Persisted.nodeEpochs hpe
  refine Settles.of_decidedEpochs hexact (fun old hol => hbound _ old (hnd ▸ hol)) hreg.decides ?_
  rw [← hpre.epochs_eq]
  unfold decidedEpochs
  rw [hnd, hreg.nodeEpochs_eq]

/-- Replaying the record of a committed registration gives the prepared
state. -/
lemma PreparedNode.replayDecision_eq (hexact : indexed.AuthorityExact)
    (hbound : ∀ (node : String) old, state.nodeEpochs[node]? = some old → old < Word.size)
    (hpre : PreparedNode state now request lease completedAt byteLimit prepared revision reply
      record indexed applied epochs) :
    state.replayDecision record = .ok prepared := by
  obtain ⟨decided, first, second, epoch, hrg⟩ := registerNodeSession_committed hpre.committed
  have hst := hpre.settles hexact hbound hrg
  obtain ⟨hen, _, _, rfl, hcp, hac⟩ := hpre
  obtain ⟨hpr, _, _⟩ := ensureHistoryIndex_persisted hen
  have hev : indexed.events = state.events := congrArg Persisted.events hpr
  have hrq : indexed.requests = state.requests := congrArg Persisted.requests hpr
  have hnd : indexed.nodeEpochs = state.nodeEpochs := congrArg Persisted.nodeEpochs hpr
  have hrm : indexed.eventsRemoved = state.eventsRemoved := congrArg Persisted.eventsRemoved hpr
  obtain ⟨hab, hrp, hdc, _, hpf, hps, hap⟩ := hrg
  have hbo' : ∀ old, indexed.nodeEpochs[lease.nodeId]? = some old →
      old < Word.size := fun old hol => hbound _ old (hnd ▸ hol)
  obtain ⟨nodeEpochs, bytes, rfl⟩ := decideEpoch_frame hdc
  have hin : Trails (indexed.completeEvents completedAt
      (nextRevision state.revision) (applied.eventsSince state.events.length))
      { indexed with
        nodeEpochs := nodeEpochs
        authorityBytes := bytes
        historyIndexed := false
        revision := nextRevision state.revision } :=
    Trails.start _ hexact hbo' hdc
  obtain ⟨eventFirst, bytesFirst, hif, _, ⟨entitiesFirst, afterFirst, storedFirst, rfl⟩, hef, hrf,
    htr⟩ := hin.putSession hpf
  obtain ⟨eventSecond, bytesSecond, _, hft, ⟨entitiesSecond, afterSecond, storedSecond, rfl⟩, hes,
    hrs, htrails⟩ := htr.putSession hps
  have hsn : applied.eventsSince state.events.length = [eventFirst, eventSecond] := by
    rw [← hev]
    apply eventsSince_append
    rw [hap]
    refine hes.trans ?_
    rw [hef]
    simp
  have hbs : state.nextNodeEventIndex = .ok eventFirst.eventIndex := by
    rw [← hif]
    simp only [State.nextNodeEventIndex, hrm, hev]
  have hch : [eventFirst, eventSecond].foldlM State.replayEvent
      (indexed.completeEvents completedAt (nextRevision state.revision)
        (applied.eventsSince state.events.length)) =
      .ok ((indexed.completeEvents completedAt (nextRevision state.revision)
        (applied.eventsSince state.events.length)).withAuthority
          entitiesSecond bytesSecond storedSecond) := by
    rw [List.foldlM_cons]
    refine bind_eq_ok.mpr ⟨_, hrf, ?_⟩
    rw [List.foldlM_cons]
    exact bind_eq_ok.mpr ⟨_, hrs, rfl⟩
  rw [← hsn] at hch
  refine bind_eq_ok.mpr ⟨NodeSessionLease.decision state applied request
    reply epochs completedAt, (RecordDecision.facts_new hcp).2, ?_⟩
  refine replayFacts_eq_ok rfl ?_ (hrq ▸ hab) ?_ hen hch (Trails.settle ?_ ?_ hft) ?_
  · simp only [State.eventBaseValid, NodeSessionLease.decision, hsn, hbs]
    simp [bind, Except.bind, pure, Except.pure]
  · rw [← hnd]
    exact hst.monotone
  · exact ⟨⟨hexact.indexed, htrails.replayed_exact.bytes_eq⟩,
      htrails.registered_exact, rfl, rfl, htrails.epochs_le⟩
  · exact ⟨hst.monotone, hst.bounded, hst.cases⟩
  · rw [← hac, hap, hrp]
    refine Eq.trans ?_ (accountHistoryChanges_indexed _ _ indexed.historyIndexed _ _ _)
    rfl

end ReplayNode

end AgentDx.Store
