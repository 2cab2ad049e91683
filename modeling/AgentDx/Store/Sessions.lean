import AgentDx.Store.Effects
import AgentDx.Store.Enrolment

/-!
# Node sessions over whole runs

Registering stores a session twice: under its own id and as the current session
of its node.  A session with a new id gets the next epoch of its node and a
renewal keeps its epoch, so the current session is the stored one of highest
epoch, as long as epochs do not saturate and only registrations write sessions.
-/

namespace AgentDx.Store

open Dfs Std Word OrderedMap Transition Option

/-! ## Runs of the store -/

/-- The keys under which sessions are stored. -/
def isSessionKey : MetaKey → Bool
  | .nodeSession _ _ | .currentNodeSession _ => true
  | _ => false

/-- The transaction writes and deletes no session. -/
def MetaTxn.sparesSessions (txn : MetaTxn) : Bool :=
  txn.mutations.all fun mutation => !mutation.target?.any isSessionKey

section Runs

variable [Footprint] [Codec]

/-- One step of the store: a mutation it answers, or a retention step. -/
inductive Serves : State → Option (Mutation × TxnOutcome) → State → Prop where
  | answered {state : State} {next clock mutation completedAt byteLimit outcome record}
      (hprepare : state.prepare clock mutation completedAt byteLimit =
        .ok (next, outcome, record)) : Serves state (some (mutation, outcome)) next
  | retained {state : State} {next delta} (happly : state.applyHistory delta = .ok next) :
    Serves state none next

/-- What a step may find and do: transactions account for what they change and
leave the sessions to registrations, and epochs are below their maximum. -/
def Orderly (state : State) : Option (Mutation × TxnOutcome) → Prop
  | some (.transaction txn, _) =>
    txn.accountable = true ∧ txn.sparesSessions = true
  | some (.registerNode _ lease, _) =>
    state.nodeEpochs[lease.nodeId]?.getD 0 + 1 < Word.size
  | none => True

def ServesOrderly (state : State) (label : Option (Mutation × TxnOutcome)) (next : State) : Prop :=
  Serves state label next ∧ Orderly state label

/-- The session a step registered. -/
def registeredBy : Option (Mutation × TxnOutcome) → List NodeSession
  | some (.registerNode _ _, .committed _ ⟨_, _, .nodeSession session⟩) =>
    [session]
  | _ => []

/-- All sessions registered in a run. -/
def registered (labels : List (Option (Mutation × TxnOutcome))) : List NodeSession :=
  labels.flatMap registeredBy

/-! ## What is kept about sessions -/

/-- The sessions of the store, given all sessions ever registered. -/
structure Enrolled (sessions : List NodeSession) (state : State) : Prop where
  exact : state.Exact
  known : ∀ session ∈ sessions, ∃ epoch,
    state.nodeEpochs[session.nodeId]? = some epoch ∧ session.leaseEpoch ≤ epoch
  stored : ∀ nodeId sessionId entity, state.entity? (.nodeSession nodeId sessionId) = some entity →
    ∃ session ∈ sessions, entity = .nodeSession session ∧
      session.nodeId = nodeId ∧ session.sessionId = sessionId
  current : ∀ nodeId entity, state.entity? (.currentNodeSession nodeId) = some entity →
    ∃ session, entity = .nodeSession session ∧
      state.entity? (.nodeSession nodeId session.sessionId) = some (.nodeSession session) ∧
      state.nodeEpochs[nodeId]? = some session.leaseEpoch
  latest : ∀ nodeId session other,
    state.entity? (.currentNodeSession nodeId) = some (.nodeSession session) →
    state.entity? (.nodeSession nodeId other.sessionId) = some (.nodeSession other) →
    other.sessionId ≠ session.sessionId → other.leaseEpoch < session.leaseEpoch

variable {state next : State} {sessions : List NodeSession}
variable {label : Option (Mutation × TxnOutcome)}

omit [Codec] in
lemma enrolled_default : Enrolled [] State.default := by
  refine ⟨State.Exact.default, by simp, ?_, ?_, ?_⟩
  · intro nodeId sessionId entity h
    cases h
  · intro nodeId entity h
    cases h
  · intro nodeId session other h
    cases h

/-- The sessions and epochs of two states are the same. -/
structure SameSessions (state next : State) : Prop where
  entity_eq : ∀ key, isSessionKey key = true → next.entity? key = state.entity? key
  epochs_eq : next.nodeEpochs = state.nodeEpochs

omit [Codec] in
lemma Enrolled.of_same (henr : Enrolled sessions state)
    (hexact : next.Exact) (heq : SameSessions state next) : Enrolled sessions next := by
  obtain ⟨het, hes⟩ := heq
  have hst : ∀ nodeId sessionId, next.entity? (.nodeSession nodeId sessionId) =
        state.entity? (.nodeSession nodeId sessionId) :=
    fun _ _ => het _ rfl
  have hcr : ∀ nodeId, next.entity? (.currentNodeSession nodeId) =
      state.entity? (.currentNodeSession nodeId) := fun _ => het _ rfl
  refine ⟨hexact, ?_, ?_, ?_, ?_⟩
  · rw [hes]
    exact henr.known
  · intro nodeId sessionId entity
    rw [hst]
    exact henr.stored nodeId sessionId entity
  · intro nodeId entity
    rw [hcr, hes]
    intro het
    obtain ⟨session, rfl, hss, hep⟩ := henr.current nodeId entity het
    exact ⟨session, rfl, by rw [hst]; exact hss, hep⟩
  · intro nodeId session other
    rw [hcr, hst]
    exact henr.latest nodeId session other

/-! ## Steps -/

lemma SameSessions.transaction (hexact : state.Exact) (hspares : txn.sparesSessions = true)
    (hprep : state.prepareTxnRecord clock txn completedAt byteLimit =
      .ok (next, .committed revision reply, record)) : SameSessions state next := by
  obtain ⟨_, indexed, applied, _, hpr⟩ := State.prepareTxnRecord_committed hprep
  have hid := hpr.ensured
  rw [hexact.ensureHistoryIndex] at hid
  cases hid
  obtain ⟨_, _, _, _, _, _, hfl⟩ := State.applyTxn_committed hpr.committed
  obtain ⟨_, _, _, _, hfr⟩ := State.applyMutations_frame hfl
  have hcm := State.applyTxn_commits hpr.committed
  obtain ⟨_, rfl⟩ := State.accountHistoryChanges_frame hpr.accounted
  refine ⟨?_, ?_⟩
  · intro key hky
    have htr : ∀ mutation ∈ txn.mutations, mutation.target? ≠ some key := by
      intro mutation hm htg
      have hsp := List.all_eq_true.mp hspares mutation hm
      rw [htg, any_some, hky] at hsp
      cases hsp
    have hen : applied.entities[key]? = state.entities[key]? := hcm.frame htr
    show (applied.entities[key]?).map VersionedEntity.entity = _
    rw [hen]
    rfl
  · show applied.nodeEpochs = state.nodeEpochs
    dsimp only at hfr
    rw [hfr]

omit [Codec] in
lemma SameSessions.applyHistory (hexact : state.Exact)
    (happly : state.applyHistory delta = .ok next) :
    SameSessions state next := by
  obtain ⟨indexed, retired, history, removed, happ⟩ := State.applyHistory_applied happly
  have h := happ.ensured
  rw [hexact.ensureHistoryIndex] at h
  cases h
  obtain ⟨_, _, _, _, rfl⟩ := State.retireRequests_frame happ.retires
  rw [happ.next_eq]
  exact ⟨fun _ _ => rfl, rfl⟩

omit [Codec] in
lemma Enrolled.liveLeaseEpoch (henr : Enrolled sessions state)
    (hlive : state.liveLeaseEpoch lease now = some epoch) :
    ∃ session, state.entity? (.currentNodeSession lease.nodeId) =
        some (.nodeSession session) ∧ session.sessionId = lease.sessionId ∧
      session.leaseEpoch = epoch ∧ state.nodeEpochs[lease.nodeId]? = some epoch := by
  unfold State.liveLeaseEpoch at hlive
  split at hlive
  next session hss =>
    split at hlive
    next hsm =>
      cases hlive
      obtain ⟨_, heq, _, hep⟩ := henr.current _ _ hss
      cases heq
      exact ⟨session, hss, hsm.1, rfl, hep⟩
    · cases hlive
  · cases hlive

/-- The epoch of a registration, against the epochs before it. -/
structure EpochChosen (state : State) (lease : NodeSessionLease) (now : ℕ) : Prop where
  after : (state.epochsAfter lease now)[lease.nodeId]? = some (state.epochFor lease now)
  others : ∀ nodeId, nodeId ≠ lease.nodeId →
    (state.epochsAfter lease now)[nodeId]? = state.nodeEpochs[nodeId]?
  grows : ∀ old, state.nodeEpochs[lease.nodeId]? = some old → old ≤ state.epochFor lease now
  cases : (∃ session, state.entity? (.currentNodeSession lease.nodeId) =
      some (.nodeSession session) ∧ session.sessionId = lease.sessionId ∧
      session.leaseEpoch = state.epochFor lease now) ∨
    ∀ old, state.nodeEpochs[lease.nodeId]? = some old → old < state.epochFor lease now

variable {lease : NodeSessionLease} {now : ℕ} {request : RequestKey}

omit [Codec] in
lemma Enrolled.epochChosen (henr : Enrolled sessions state)
    (hroom : state.nodeEpochs[lease.nodeId]?.getD 0 + 1 < Word.size) :
    EpochChosen state lease now := by
  cases hlv : state.liveLeaseEpoch lease now with
  | some epoch =>
    have hep : state.epochFor lease now = epoch := by
      rw [State.epochFor, hlv, getD_some]
    have ha : state.epochsAfter lease now = state.nodeEpochs := by
      rw [State.epochsAfter, hlv]
    obtain ⟨session, hss, hid, hls, hn⟩ := henr.liveLeaseEpoch hlv
    refine ⟨?_, ?_, ?_, .inl ⟨session, hss, hid, ?_⟩⟩
    · rw [ha, hep, hn]
    · intro nodeId _
      rw [ha]
    · intro old hol
      rw [hn] at hol
      rw [hep, Option.some.inj hol]
    · rw [hls, hep]
  | none =>
    have hep : state.epochFor lease now = state.nodeEpochs[lease.nodeId]?.getD 0 + 1 := by
      rw [State.epochFor, hlv, getD_none, saturatingAdd]
      omega
    have ha : state.epochsAfter lease now =
        state.nodeEpochs.insert lease.nodeId (state.epochFor lease now) := by
      rw [State.epochsAfter, hlv]
    have hlr : ∀ old, state.nodeEpochs[lease.nodeId]? = some old →
        old < state.epochFor lease now := by
      intro old hol
      rw [hep, hol, getD_some]
      omega
    refine ⟨?_, ?_, fun old hol => (hlr old hol).le, .inr hlr⟩
    · rw [ha, ExtTreeMap.getElem?_insert_self]
    · intro nodeId hne
      rw [ha, ExtTreeMap.getElem?_insert, if_neg]
      rw [Std.compare_eq_iff_eq]
      exact Ne.symm hne

omit [Codec] [Footprint] in
lemma Enrols.entity? (henrols : Enrols state lease now request next) (key) :
    next.entity? key = if key = .currentNodeSession lease.nodeId ∨
          key = .nodeSession lease.nodeId lease.sessionId then
        some (.nodeSession (state.sessionFor lease now))
      else
        state.entity? key := by
  rw [State.entity?, henrols.entities, ExtTreeMap.getElem?_insert, ExtTreeMap.getElem?_insert]
  simp only [Std.compare_eq_iff_eq, @eq_comm _ _ key]
  by_cases hcr : key = .currentNodeSession lease.nodeId
  · rw [if_pos hcr, if_pos (.inl hcr)]
    rfl
  · rw [if_neg hcr]
    by_cases hss : key = .nodeSession lease.nodeId lease.sessionId
    · rw [if_pos hss, if_pos (.inr hss)]
      rfl
    · rw [if_neg hss, if_neg (not_or.mpr ⟨hcr, hss⟩)]
      rfl

omit [Codec] [Footprint] in
lemma Enrols.stored (henrols : Enrols state lease now request next) (nodeId sessionId) :
    next.entity? (.nodeSession nodeId sessionId) =
      if nodeId = lease.nodeId ∧ sessionId = lease.sessionId then
        some (.nodeSession (state.sessionFor lease now))
      else
        state.entity? (.nodeSession nodeId sessionId) := by
  simp [henrols.entity?]

omit [Codec] [Footprint] in
lemma Enrols.current (henrols : Enrols state lease now request next) (nodeId) :
    next.entity? (.currentNodeSession nodeId) = if nodeId = lease.nodeId then
        some (.nodeSession (state.sessionFor lease now))
      else
        state.entity? (.currentNodeSession nodeId) := by
  simp [henrols.entity?]

omit [Codec] in
/-- Stored sessions with another id than the registered one have a smaller
epoch than it gets. -/
lemma Enrolled.smaller (henr : Enrolled sessions state) (hchosen : EpochChosen state lease now)
    (hother : state.entity? (.nodeSession lease.nodeId other.sessionId) = some (.nodeSession other))
    (hne : other.sessionId ≠ lease.sessionId) : other.leaseEpoch < state.epochFor lease now := by
  rcases hchosen.cases with ⟨session, hss, hid, hep⟩ | hlr
  · rw [← hep]
    exact henr.latest _ _ _ hss hother (by rwa [hid])
  · obtain ⟨stored, hm, heq, hn, _⟩ := henr.stored _ _ _ hother
    cases heq
    obtain ⟨epoch, hep, hle⟩ := henr.known _ hm
    rw [hn] at hep
    exact hle.trans_lt (hlr epoch hep)

omit [Codec] in
lemma Enrolled.enrols (henr : Enrolled sessions state)
    (henrols : Enrols state lease now request next) (hexact : next.Exact)
    (hroom : state.nodeEpochs[lease.nodeId]?.getD 0 + 1 < Word.size) :
    Enrolled (sessions ++ [state.sessionFor lease now]) next := by
  have hch : EpochChosen state lease now := henr.epochChosen hroom
  refine ⟨hexact, ?_, ?_, ?_, ?_⟩
  · intro session hm
    rw [henrols.nodeEpochs]
    rcases List.mem_append.mp hm with hm | hm
    · obtain ⟨epoch, hep, hle⟩ := henr.known session hm
      by_cases hn : session.nodeId = lease.nodeId
      · rw [hn] at hep ⊢
        exact ⟨_, hch.after, hle.trans (hch.grows epoch hep)⟩
      · exact ⟨epoch, by rw [hch.others _ hn]; exact hep, hle⟩
    · obtain rfl := List.mem_singleton.mp hm
      exact ⟨_, hch.after, le_rfl⟩
  · intro nodeId sessionId entity het
    rw [henrols.stored] at het
    split at het
    next heq =>
      cases het
      exact ⟨_, List.mem_append_right _ (List.mem_singleton_self _), rfl, heq.1.symm, heq.2.symm⟩
    · obtain ⟨session, hm, hfn⟩ := henr.stored nodeId sessionId entity het
      exact ⟨session, List.mem_append_left _ hm, hfn⟩
  · intro nodeId entity het
    rw [henrols.current] at het
    split at het
    next hn =>
      cases het
      subst hn
      refine ⟨_, rfl, ?_, by rw [henrols.nodeEpochs]; exact hch.after⟩
      rw [henrols.stored]
      exact if_pos ⟨rfl, rfl⟩
    next hn =>
      obtain ⟨session, rfl, hss, hep⟩ := henr.current nodeId entity het
      refine ⟨session, rfl, ?_, ?_⟩
      · rw [henrols.stored, if_neg fun heq => hn heq.1]
        exact hss
      · rw [henrols.nodeEpochs, hch.others nodeId hn]
        exact hep
  · intro nodeId session other hcr ho hne
    rw [henrols.current] at hcr
    rw [henrols.stored] at ho
    split at hcr
    next hn =>
      cases hcr
      subst hn
      rw [if_neg fun heq => hne heq.2] at ho
      exact henr.smaller hch ho hne
    next hn =>
      rw [if_neg fun heq => hn heq.1] at ho
      exact henr.latest nodeId session other hcr ho hne

lemma Enrolled.serves (henr : Enrolled sessions state) (hstep : ServesOrderly state label next) :
    Enrolled (sessions ++ registeredBy label) next := by
  obtain ⟨hsr, hor⟩ := hstep
  have hex := henr.exact
  cases hsr with
  | @answered _ clock mutation completedAt byteLimit outcome record hpp =>
    cases outcome with
    | conditionFailed revision existing =>
      have hes := State.prepare_conditionFailed hpp
      rw [hex.ensureHistoryIndex] at hes
      cases hes
      have hnn : registeredBy (some (mutation, .conditionFailed revision existing)) = [] := by
        cases mutation <;> rfl
      rw [hnn, List.append_nil]
      exact henr.of_same hex.withFlags ⟨fun _ _ => rfl, rfl⟩
    | committed revision reply =>
      cases mutation with
      | transaction txn =>
        have hac : Mutation.accountable (.transaction txn) = true := hor.1
        have hnx := hex.prepare hac hpp
        have heq := SameSessions.transaction hex hor.2 hpp
        have hkp := henr.of_same hnx heq
        simpa [registeredBy] using hkp
      | registerNode request lease =>
        have hac : Mutation.accountable (.registerNode request lease) = true := rfl
        have hnx := hex.prepare hac hpp
        obtain ⟨rfl, heo⟩ := Enrols.of_prepare hex hpp
        exact henr.enrols heo hnx hor
  | retained hap =>
    have hkp := henr.of_same (hex.applyHistory hap) (SameSessions.applyHistory hex hap)
    simpa [registeredBy] using hkp

lemma Enrolled.run (hrun : Run ServesOrderly State.default labels state) :
    Enrolled (registered labels) state := by
  induction hrun with
  | refl => exact enrolled_default
  | snoc _ hls ih =>
    have hnx := ih.serves hls
    rw [registered, List.flatMap_append, List.flatMap_singleton]
    exact hnx

omit [Codec] in
lemma Enrols.authorityWeight_le (henrols : Enrols state lease now request next) :
    next.authorityWeight ≤ state.authorityWeight + sessionWeight (state.sessionFor lease now) := by
  have hfs := total_insert entityWeight state.entities
    (.nodeSession lease.nodeId lease.sessionId)
    ⟨nextRevision state.revision, .nodeSession (state.sessionFor lease now)⟩
  have hsn := total_insert entityWeight (state.entities.insert
      (.nodeSession lease.nodeId lease.sessionId)
      ⟨nextRevision state.revision, .nodeSession (state.sessionFor lease now)⟩)
    (.currentNodeSession lease.nodeId)
    ⟨nextRevision state.revision, .nodeSession (state.sessionFor lease now)⟩
  have hep : total epochWeight (state.epochsAfter lease now) ≤
      total epochWeight state.nodeEpochs + epochWeight lease.nodeId (state.epochFor lease now) := by
    unfold State.epochsAfter
    split
    · exact Nat.le_add_right _ _
    · have hth := total_insert epochWeight state.nodeEpochs lease.nodeId (state.epochFor lease now)
      omega
  have hsm : sessionWeight (state.sessionFor lease now) =
      entityWeight (.nodeSession lease.nodeId lease.sessionId)
        ⟨nextRevision state.revision, .nodeSession (state.sessionFor lease now)⟩ +
      entityWeight (.currentNodeSession lease.nodeId)
        ⟨nextRevision state.revision, .nodeSession (state.sessionFor lease now)⟩ +
      epochWeight lease.nodeId (state.epochFor lease now) := rfl
  simp only [State.authorityWeight, henrols.entities, henrols.nodeEpochs]
  omega

omit [Codec] [Footprint] in
lemma State.epochsAfter_le (state : State) (lease now) :
    (state.epochsAfter lease now)[lease.nodeId]?.getD 0 ≤
      state.nodeEpochs[lease.nodeId]?.getD 0 + 1 := by
  unfold State.epochsAfter
  split
  · exact Nat.le_add_right _ _
  next h =>
    rw [ExtTreeMap.getElem?_insert_self, getD_some, State.epochFor, h, getD_none, saturatingAdd]
    exact min_le_left _ _

/-- A registration is refused once the store has recorded as many events as
their index can count. -/
lemma State.Exact.prepareNodeRecord_overflow (hexact : state.Exact)
    (hnew : state.requests[request]? = none) (hwf : WellFormed request lease)
    (hlog : 2 ^ 32 ≤ state.eventsRemoved + state.events.length) (now completedAt byteLimit) :
    state.prepareNodeRecord now request lease completedAt byteLimit =
      .error (invalidContract "node event index overflow") := by
  have hls : (!lease.nodeId.isEmpty && !lease.sessionId.isEmpty &&
      decide (lease.leaseTtlNanos ≠ 0)) = true := by
    simp [hwf.node, hwf.session, hwf.lifetime]
  have hix : state.nextNodeEventIndex = .error (invalidContract "node event index overflow") := by
    have hnn : (checkedAdd state.eventsRemoved state.events.length).filter
        (fun count => decide (count < 2 ^ 32)) = none := by
      simp only [filter_eq_none_iff, checkedAdd_eq_some, decide_eq_true_eq]
      omega
    rw [State.nextNodeEventIndex, hnn]
    rfl
  have hrg : State.registerNodeSession { state with
      authorityIndexed := true, historyIndexed := true } now request lease =
        .error (invalidContract "node event index overflow") := by
    refine (ensure_bind hls).trans ?_
    rw [State.registerValidated, hnew]
    refine (ensure_bind hwf.request).trans ?_
    exact congrArg (· >>= _) hix
  rw [State.prepareNodeRecord, hexact.ensureHistoryIndex, Result.ok_bind, hrg]
  rfl

/-! ## Registrations commit in order -/

/-- In every run whose steps are orderly, a fresh registration commits while
there is room.  A session with another id than the current one gets a larger
epoch than every session the node ever had, a renewal of the current session
keeps its epoch, and the current session is afterwards the registered one, which
is stored under its id and has the highest epoch of all stored sessions of the
node. -/
theorem registration_commits {labels : List (Option (Mutation × TxnOutcome))}
    {state : State} {lease : NodeSessionLease} {request : RequestKey}
    {now completedAt byteLimit : ℕ} (hrun : Run ServesOrderly State.default labels state)
    (hnew : state.requests[request]? = none)
    (hwf : WellFormed request lease) (hrenewable : state.Renewable lease now)
    (hepoch : state.nodeEpochs[lease.nodeId]?.getD 0 + 1 < Word.size)
    (hroom : Room state lease now request completedAt byteLimit) :
    ∃ next session record, state.prepareNodeRecord now request lease completedAt
        byteLimit = .ok (next, .committed (state.revision + 1)
          ⟨request, .registerNode, .nodeSession session⟩, some record) ∧
      session.nodeId = lease.nodeId ∧ session.sessionId = lease.sessionId ∧
      (∀ current, state.entity? (.currentNodeSession lease.nodeId) =
          some (.nodeSession current) → current.sessionId = lease.sessionId →
        session.leaseEpoch = current.leaseEpoch) ∧
      ((∀ current, state.entity? (.currentNodeSession lease.nodeId) =
          some (.nodeSession current) → current.sessionId ≠ lease.sessionId) →
        ∀ earlier ∈ registered labels, earlier.nodeId = lease.nodeId →
          earlier.leaseEpoch < session.leaseEpoch) ∧
      next.entity? (.currentNodeSession lease.nodeId) = some (.nodeSession session) ∧
      next.entity? (.nodeSession lease.nodeId lease.sessionId) = some (.nodeSession session) ∧
      ∀ other, next.entity? (.nodeSession lease.nodeId other.sessionId) =
          some (.nodeSession other) → other ≠ session → other.leaseEpoch < session.leaseEpoch := by
  have henrolled := Enrolled.run hrun
  obtain ⟨next, record, hprep, _⟩ := henrolled.exact.prepareNodeRecord_ok hnew hwf hrenewable hroom
  obtain ⟨_, henrols⟩ := Enrols.of_prepare henrolled.exact hprep
  have hchosen : EpochChosen state lease now := henrolled.epochChosen hepoch
  have hrev := nextRevision_of_lt hroom.revision
  rw [hrev] at hprep
  have hput := henrols.stored lease.nodeId lease.sessionId
  rw [if_pos ⟨rfl, rfl⟩] at hput
  have hnow := henrols.current lease.nodeId
  rw [if_pos rfl] at hnow
  refine ⟨next, state.sessionFor lease now, record, hprep, rfl, rfl, ?_, ?_, hnow, hput, ?_⟩
  · intro current hget hid
    obtain ⟨session, heq, hsession, _⟩ := henrolled.current _ _ hget
    cases heq
    have hlive : state.liveLeaseEpoch lease now = some current.leaseEpoch := by
      rw [hid] at hsession
      have halive := hrenewable current hsession
      rw [State.liveLeaseEpoch, hget]
      exact if_pos ⟨hid, halive⟩
    show state.epochFor lease now = _
    rw [State.epochFor, hlive, getD_some]
  · intro hedit earlier hpast hnode
    obtain ⟨epoch, hknown, hle⟩ := henrolled.known earlier hpast
    rw [hnode] at hknown
    rcases hchosen.cases with ⟨current, hget, hid, _⟩ | hlarger
    · exact absurd hid (hedit current hget)
    · exact hle.trans_lt (hlarger epoch hknown)
  · intro other hother hne
    rw [henrols.stored] at hother
    split at hother
    · cases hother
      exact absurd rfl hne
    next hid =>
      exact henrolled.smaller hchosen hother fun heq => hid ⟨rfl, heq⟩

end Runs

/-! ## A node that keeps renewing -/

def unary (count : ℕ) : String := String.ofList (List.replicate (count + 1) 'a')

lemma unary_utf8ByteSize (count) : (unary count).utf8ByteSize = count + 1 := by
  have h : ∀ count, String.utf8Len (List.replicate count 'a') = count := by
    intro count
    induction count with
    | zero => rfl
    | succ count ih =>
      rw [List.replicate_succ, String.utf8Len_cons, ih]
      rfl
  rw [unary, String.utf8ByteSize_ofList, h]

lemma unary_isEmpty (count) : (unary count).isEmpty = false := by
  simp [unary]

lemma unary_injective : Function.Injective unary := by
  intro left right heq
  have h := congrArg String.utf8ByteSize heq
  rw [unary_utf8ByteSize, unary_utf8ByteSize] at h
  omega

/-- The request of one renewal; two short strings tell many renewals apart. -/
def beat (count : ℕ) : RequestKey := ⟨unary (count / 2 ^ 16), unary (count % 2 ^ 16)⟩

lemma beat_injective : Function.Injective beat := by
  intro left right heq
  simp only [beat, RequestKey.mk.injEq] at heq
  have hhg := unary_injective heq.1
  have hlw := unary_injective heq.2
  rw [← Nat.div_add_mod left (2 ^ 16), hhg, hlw, Nat.div_add_mod]

def beatLease : NodeSessionLease where
  nodeId := "n"
  sessionId := "s"
  grpcAddr := ""
  dataAddr := ""
  restAddr := ""
  ownerfsEnabled := false
  storageDevices := []
  leaseTtlNanos := 1000000

lemma beat_wellFormed (count) : WellFormed (beat count) beatLease where
  request := by simp [RequestKey.isValid, beat, unary_isEmpty]
  node := rfl
  session := rfl
  lifetime := by decide

/-- A store on which one node has registered and renewed its session. -/
structure Beats [Footprint] (count : ℕ) (state : State) : Prop where
  revision : state.revision = count
  removed : state.eventsRemoved = 0
  events : state.events.length = 2 * count
  requests : ∀ key ∈ state.requests, ∃ earlier < count, key = beat earlier
  epoch : state.nodeEpochs["n"]?.getD 0 ≤ count
  renewable : state.Renewable beatLease 0
  authority : state.authorityWeight ≤ count * 2 ^ 20
  outcomes : state.history.requestBytes ≤ count * 2 ^ 20
  eventCount : state.history.eventCount = 2 * count
  eventBytes : state.history.eventBytes ≤ count * 2 ^ 20

lemma Beats.fresh [Footprint] (hbeats : Beats count state) :
    state.requests[beat count]? = none := by
  apply ExtTreeMap.getElem?_eq_none
  intro h
  obtain ⟨earlier, hlt, heq⟩ := hbeats.requests _ h
  exact hlt.ne (beat_injective heq).symm

lemma beats_default : @Beats plainFootprint 0 State.default := by
  refine @Beats.mk plainFootprint _ _ rfl rfl rfl ?_ ?_ ?_ ?_ ?_ rfl ?_
  · intro key hky
    simp [State.default] at hky
  · simp [State.default]
  · intro session hss
    simp [State.default, State.entity?] at hss
  · exact Nat.zero_le _
  · exact Nat.zero_le _
  · exact Nat.zero_le _

lemma beat_weights (hnum : count < 2 ^ 31) (state : State) : letI := plainFootprint
    sessionWeight (state.sessionFor beatLease 0) ≤ 2 ^ 20 ∧
      outcomeWeight (.exact (state.replyFor beatLease 0 (beat count))) ≤ 2 ^ 20 ∧
      groupWeight (state.eventsFor beatLease 0) ≤ 2 ^ 20 := by
  have hss : keyHeap (.nodeSession "n" "s") = 2 := by decide
  have hcr : keyHeap (.currentNodeSession "n") = 1 := by decide
  have hn : "n".utf8ByteSize = 1 := by decide
  refine ⟨?_, ?_, ?_⟩
  · change 1024 + 96 + 512 + keyHeap (.nodeSession "n" "s") + 0 +
      (1024 + 96 + 512 + keyHeap (.currentNodeSession "n") + 0) +
      (1024 + (24 + 8) + "n".utf8ByteSize) ≤ _
    omega
  · have hhg : count / 2 ^ 16 < 2 ^ 15 := by omega
    have hlw : count % 2 ^ 16 < 2 ^ 16 := Nat.mod_lt _ (by decide)
    have hhp : requestHeap (beat count) = count / 2 ^ 16 + 1 + (count % 2 ^ 16 + 1) := by
      simp only [requestHeap, beat, unary_utf8ByteSize]
    change 512 + requestHeap (beat count) + 0 + 0 + 1024 +
      4 * (48 + requestHeap (beat count) + 0) ≤ _
    omega
  · change 512 + (640 + keyHeap (.nodeSession "n" "s") + 0 + 0 + 64 +
      (640 + keyHeap (.currentNodeSession "n") + 0 + 0 + 64 + 0)) ≤ _
    omega

lemma Beats.room (hbeats : @Beats plainFootprint count state) (hnum : count < 2 ^ 31) :
    @Room plainFootprint plainCodec state beatLease 0 (beat count) 0 1 := by
  let := plainFootprint
  let := plainCodec
  obtain ⟨hss, hot, hgr⟩ := beat_weights hnum state
  have hrv := hbeats.revision
  have hrm := hbeats.removed
  have hev := hbeats.events
  have hat := hbeats.authority
  have hou := hbeats.outcomes
  have hec := hbeats.eventCount
  have heb := hbeats.eventBytes
  have hsz : Word.size = 2 ^ 64 := rfl
  refine ⟨?_, ?_, ?_, ?_, ?_, ?_, ?_⟩
  · omega
  · omega
  · omega
  · omega
  · omega
  · omega
  · intro epochs _
    exact ⟨le_rfl, le_rfl, le_rfl⟩

lemma Beats.step (hexact : @State.Exact plainFootprint state)
    (hbeats : @Beats plainFootprint count state) (hnum : count < 2 ^ 31) : letI := plainFootprint
    letI := plainCodec
    ∃ label next, ServesOrderly state label next ∧ Beats (count + 1) next := by
  let := plainFootprint
  let := plainCodec
  have hf := hbeats.fresh
  obtain ⟨next, record, hpp, had⟩ := hexact.prepareNodeRecord_ok hf
    (beat_wellFormed count) hbeats.renewable (hbeats.room hnum)
  obtain ⟨_, hen⟩ := Enrols.of_prepare hexact hpp
  obtain ⟨hss, hot, hgr⟩ := beat_weights hnum state
  have hsr : Serves state (some (.registerNode (beat count) beatLease,
      .committed (nextRevision state.revision) (state.replyFor beatLease 0 (beat count)))) next :=
    @Serves.answered _ _ state next (fun _ => 0) (.registerNode (beat count) beatLease) 0 1 _ _ hpp
  have hep := hbeats.epoch
  have hsz : Word.size = 2 ^ 64 := rfl
  refine ⟨_, next, ⟨hsr, ?_⟩, ?_⟩
  · show state.nodeEpochs["n"]?.getD 0 + 1 < Word.size
    omega
  · have hrv := hbeats.revision
    have hrm := hbeats.removed
    have hev := hbeats.events
    have hat := hbeats.authority
    have hwt := hen.authorityWeight_le
    have hou := hbeats.outcomes
    have hec := hbeats.eventCount
    have heb := hbeats.eventBytes
    refine ⟨?_, ?_, ?_, ?_, ?_, ?_, ?_, ?_, ?_, ?_⟩
    · rw [hen.revision, nextRevision_of_lt (by omega), hrv]
    · rw [hen.eventsRemoved, hrm]
    · rw [hen.events, List.length_append, hev]
      rfl
    · intro key hky
      rw [hen.requests, ExtTreeMap.mem_insert] at hky
      rcases hky with hky | hky
      · exact ⟨count, Nat.lt_succ_self _, (Std.compare_eq_iff_eq.mp hky).symm⟩
      · obtain ⟨earlier, hlt, heq⟩ := hbeats.requests key hky
        exact ⟨earlier, hlt.trans (Nat.lt_succ_self _), heq⟩
    · have hle := state.epochsAfter_le beatLease 0
      rw [hen.nodeEpochs]
      exact hle.trans (Nat.succ_le_succ hep)
    · intro session hst
      rw [hen.stored, if_pos ⟨rfl, rfl⟩] at hst
      cases hst
      rfl
    · omega
    · rw [had.requestBytes]
      omega
    · rw [had.eventCount, hec]
      rfl
    · rw [had.eventBytes]
      omega

lemma beats_run (count) (hnum : count ≤ 2 ^ 31) : letI := plainFootprint
    letI := plainCodec
    ∃ labels state, Run ServesOrderly State.default labels state ∧ Beats count state := by
  let := plainFootprint
  let := plainCodec
  induction count with
  | zero => exact ⟨[], State.default, .refl _, beats_default⟩
  | succ count ih =>
    obtain ⟨labels, state, hrn, hbe⟩ := ih (by omega)
    obtain ⟨label, next, hst, hnx⟩ := hbe.step (Enrolled.run hrn).exact (by omega)
    exact ⟨labels ++ [label], next, hrn.snoc hst, hnx⟩

/-- A node that renews its session for long enough uses up the event indices:
its next renewal, with a fresh request and its session alive, is refused. -/
theorem renewal_refused : letI := plainFootprint
    letI := plainCodec
    ∃ labels state request lease, Run ServesOrderly State.default labels state ∧
      state.requests[request]? = none ∧ WellFormed request lease ∧ state.Renewable lease 0 ∧
      state.nodeEpochs[lease.nodeId]?.getD 0 + 1 < Word.size ∧
      ∀ completedAt byteLimit, state.prepareNodeRecord 0 request lease completedAt byteLimit =
          .error (invalidContract "node event index overflow") := by
  let := plainFootprint
  let := plainCodec
  obtain ⟨count, hnum⟩ : ∃ count, count = 2 ^ 31 := ⟨_, rfl⟩
  obtain ⟨labels, state, hrun, hbeats⟩ := beats_run count hnum.le
  have hnew := hbeats.fresh
  have hepoch := hbeats.epoch
  have hlog := hbeats.events
  have hsize : Word.size = 2 ^ 64 := rfl
  refine ⟨labels, state, beat count, beatLease, hrun, hnew, beat_wellFormed _, hbeats.renewable, ?_,
    ?_⟩
  · show state.nodeEpochs["n"]?.getD 0 + 1 < Word.size
    omega
  · exact (Enrolled.run hrun).exact.prepareNodeRecord_overflow hnew (beat_wellFormed _) (by omega) 0

/-- A node that has registered before registers once more. -/
theorem second_registration_commits : letI := plainFootprint
    letI := plainCodec
    ∃ labels state next session record, Run ServesOrderly State.default labels state ∧
      state.prepareNodeRecord 0 (beat 1) beatLease 0 1 =
        .ok (next, .committed 2 ⟨beat 1, .registerNode, .nodeSession session⟩, some record) ∧
      next.entity? (.currentNodeSession "n") = some (.nodeSession session) := by
  let := plainFootprint
  let := plainCodec
  obtain ⟨labels, state, hrun, hbeats⟩ := beats_run 1 (by decide)
  have hepoch := hbeats.epoch
  have hsize : Word.size = 2 ^ 64 := rfl
  obtain ⟨next, session, record, hprep, _, _, _, _, hnow, _⟩ :=
    registration_commits hrun hbeats.fresh (beat_wellFormed 1) hbeats.renewable
      (by show state.nodeEpochs["n"]?.getD 0 + 1 < Word.size; omega) (hbeats.room (by decide))
  rw [hbeats.revision] at hprep
  exact ⟨labels, state, next, session, record, hrun, hprep, hnow⟩

end AgentDx.Store
