import AgentDx.Store.Recovery

/-!
# Retries observe the committed reply

A retry is answered with the outcome retained for its request.  The reply of a
commit is the first outcome its transaction records, while a key retains the
last outcome recorded for it.  Retries are therefore idempotent exactly when the
two agree and when no transaction records a different outcome for a request that
already has one.
-/

namespace AgentDx.Store

open Dfs Std Word OrderedMap Transition Result

/-! ## Retained outcomes -/

/-- The outcome retained for a request. -/
def State.outcome? (state : State) (key : RequestKey) : Option RequestOutcome :=
  state.requests[key]?.map OwnedOutcome.outcome

/-- The last of the outcomes that is about this request. -/
def lastOutcome? (key : RequestKey) (outcomes : List RequestOutcome) : Option RequestOutcome :=
  outcomes.reverse.find? fun outcome => decide (outcome.request = key)

lemma lastOutcome?_cons (key outcome outcomes) : lastOutcome? key (outcome :: outcomes) =
      (lastOutcome? key outcomes).or (if outcome.request = key then some outcome else none) := by
  unfold lastOutcome?
  rw [List.reverse_cons, List.find?_append]
  by_cases h : outcome.request = key <;> simp [h]

section Commit

variable [Footprint]

lemma applyMutations_outcome? {mutations : List TxnMutation} (key)
    (happ : mutations.foldlM (State.applyMutation revision)
      (before, eventIndex) = .ok (after, lastIndex)) : after.outcome? key =
      (lastOutcome? key (mutations.filterMap TxnMutation.outcome?)).or (before.outcome? key) := by
  induction mutations generalizing before eventIndex with
  | nil =>
    cases happ
    simp [lastOutcome?]
  | cons mutation mutations ih =>
    rw [List.foldlM_cons] at happ
    obtain ⟨⟨middle, nextIndex⟩, hst, htl⟩ := bind_eq_ok.mp happ
    have hr := ih htl
    rcases State.applyMutation_cases hst with
      ⟨entity, bytes, rfl, _, rfl, rfl⟩ | ⟨deleted, bytes, rfl, _, rfl, rfl⟩ |
      ⟨owned, rfl, rfl, rfl⟩
    · exact hr
    · exact hr
    · have hcn : (TxnMutation.recordRequestOutcome owned ::
          mutations).filterMap TxnMutation.outcome? =
          owned.outcome :: mutations.filterMap TxnMutation.outcome? := rfl
      rw [hr, hcn, lastOutcome?_cons, Option.or_assoc]
      congr 1
      by_cases hky : owned.outcome.request = key
      · simp [State.outcome?, hky]
      · simp [State.outcome?, ExtTreeMap.getElem?_insert, hky]

end Commit

/-! ## What a published step does to retained outcomes -/

/-- The outcomes a committed mutation records. -/
def Mutation.recorded (reply : RequestOutcome) : Mutation → List RequestOutcome
  | .transaction txn => txn.outcomes
  | .registerNode _ _ => [reply]

def Mutation.request : Mutation → RequestKey
  | .transaction txn => txn.request
  | .registerNode request _ => request

section Steps

variable [Footprint] [Codec]

/-- A committed preparation: its request had no outcome, and the outcomes it
records overlay the retained ones. -/
lemma State.prepare_outcome? {state : State} {prepared clock completedAt byteLimit revision}
    (hprep : state.prepare clock mutation completedAt byteLimit =
      .ok (prepared, .committed revision reply, record)) :
    state.outcome? mutation.request = none ∧ (mutation.recorded reply).head? = some reply ∧
      prepared.historyIndexed = true ∧ ∀ key, prepared.outcome? key =
        (lastOutcome? key (mutation.recorded reply)).or (state.outcome? key) := by
  cases mutation with
  | transaction txn =>
    obtain ⟨_, indexed, applied, _, hpr⟩ := State.prepareTxnRecord_committed hprep
    obtain ⟨_, hab, _, hrp, _, lastIndex, hfl⟩ := State.applyTxn_committed hpr.committed
    obtain ⟨hpe, _, _⟩ := State.ensureHistoryIndex_persisted hpr.ensured
    have hrq : indexed.requests = state.requests := congrArg Persisted.requests hpe
    obtain ⟨accounting, rfl⟩ := State.accountHistoryChanges_frame hpr.accounted
    refine ⟨?_, hrp, rfl, ?_⟩
    · simp [State.outcome?, Mutation.request, ← hrq, hab]
    · intro key
      refine (applyMutations_outcome? key hfl).trans ?_
      simp [State.outcome?, Mutation.recorded, MetaTxn.outcomes, hrq]
  | registerNode request lease =>
    obtain ⟨_, indexed, applied, epochs, _, hpr⟩ := State.prepareNodeRecord_committed hprep
    obtain ⟨decided, first, second, epoch, hrg⟩ := State.registerNodeSession_committed hpr.committed
    obtain ⟨hpe, _, _⟩ := State.ensureHistoryIndex_persisted hpr.ensured
    have hrq : indexed.requests = state.requests := congrArg Persisted.requests hpe
    obtain ⟨accounting, rfl⟩ := State.accountHistoryChanges_frame hpr.accounted
    refine ⟨?_, rfl, rfl, ?_⟩
    · simp [State.outcome?, Mutation.request, ← hrq, hrg.absent]
    · intro key
      show applied.outcome? key = _
      have hre : reply.request = request := by rw [hrg.reply_eq]
      rw [Mutation.recorded, lastOutcome?_cons, hre]
      by_cases hky : request = key
      · simp [State.outcome?, hrg.requests_eq, hky, lastOutcome?, OwnedOutcome.exact]
      · simp [State.outcome?, hrg.requests_eq, hky, lastOutcome?, ExtTreeMap.getElem?_insert, hrq]

omit [Codec] in
lemma State.applyHistory_outcome? {state : State} {next}
    (happly : state.applyHistory delta = .ok next) :
    next.historyIndexed = true ∧ ∀ key, key ∉ delta.requests.map RemovedRequest.key →
        next.outcome? key = state.outcome? key := by
  obtain ⟨indexed, retired, history, removed, happ⟩ := State.applyHistory_applied happly
  obtain ⟨hpr, _, hfl⟩ := State.ensureHistoryIndex_persisted happ.ensured
  have hrq : indexed.requests = state.requests := congrArg Persisted.requests hpr
  have hkp : retired.historyIndexed = true ∧ ∀ key, key ∉ delta.requests.map RemovedRequest.key →
        retired.outcome? key = state.outcome? key := by
    refine foldlM_invariant
      (fun current => current.historyIndexed = true ∧
        ∀ key, key ∉ delta.requests.map RemovedRequest.key →
          current.outcome? key = state.outcome? key)
      ?_ happ.retires ⟨hfl, ?_⟩
    · rintro before item after him ⟨hid, hb⟩ hst
      obtain ⟨_, _, hst⟩ := bind_eq_ok.mp hst
      obtain ⟨_, _, hst⟩ := bind_eq_ok.mp hst
      cases hst
      refine ⟨hid, fun key hky => ?_⟩
      have ho : item.key ≠ key := by
        rintro rfl
        exact hky (List.mem_map_of_mem him)
      simpa [State.outcome?, ExtTreeMap.getElem?_erase, ho] using hb key hky
    · intro key _
      simp [State.outcome?, hrq]
  rw [happ.next_eq]
  exact hkp

/-- The requests a record retires. -/
def Record.removed : Record → List RequestKey
  | .decision _ none => []
  | .decision _ (some delta) => delta.requests.map RemovedRequest.key
  | .history delta => delta.requests.map RemovedRequest.key

/-- The condition under which a commit keeps replies: the first outcome a
transaction records is also the last one for its own request, and for every
other request that already has an outcome it records that outcome last, if it
records one at all. -/
def KeepsReplies (state : State) : Mutation → Prop
  | .transaction txn =>
    txn.outcomes.head? = lastOutcome? txn.request txn.outcomes ∧
      ∀ key last outcome, key ≠ txn.request → lastOutcome? key txn.outcomes = some last →
        state.outcome? key = some outcome → last = outcome
  | .registerNode _ _ => True

/-- A committed mutation that keeps replies leaves retained outcomes alone. -/
lemma KeepsReplies.prepare_outcome? {state prepared} (hkeeps : KeepsReplies state mutation)
    (hprep : state.prepare clock mutation completedAt byteLimit =
      .ok (prepared, .committed revision reply, record))
        (hkept : state.outcome? key = some outcome) :
    prepared.outcome? key = some outcome := by
  obtain ⟨hab, _, _, hov⟩ := State.prepare_outcome? hprep
  have hky : key ≠ mutation.request := by
    rintro rfl
    rw [hab] at hkept
    cases hkept
  rw [hov key]
  cases hls : lastOutcome? key (mutation.recorded reply) with
  | none => simpa using hkept
  | some last =>
    cases mutation with
    | transaction txn =>
      rw [hkeeps.2 key last outcome hky hls hkept]
      rfl
    | registerNode request lease =>
      obtain ⟨_, indexed, applied, epochs, _, hpr⟩ := State.prepareNodeRecord_committed hprep
      obtain ⟨_, _, _, _, hrg⟩ := State.registerNodeSession_committed hpr.committed
      have hrq : reply.request = request := by
        rw [hrg.reply_eq]
      have hnn : lastOutcome? key [reply] = none := by
        simp only [Mutation.request] at hky
        simp [lastOutcome?, hrq, hky.symm]
      rw [Mutation.recorded, hnn] at hls
      cases hls

lemma Publishes.outcome? {state next} (hstep : Publishes KeepsReplies state record next) :
    next.historyIndexed = true ∧ ∀ key outcome, key ∉ record.removed →
        state.outcome? key = some outcome → next.outcome? key = some outcome := by
  cases hstep with
  | decided hkp hpp =>
    obtain ⟨_, _, hid, _⟩ := State.prepare_outcome? hpp
    exact ⟨hid, fun key outcome _ hrt =>
      hkp.prepare_outcome? hpp hrt⟩
  | retained hkp hpp hre =>
    obtain ⟨hid, hke⟩ := State.applyHistory_outcome? hre
    refine ⟨hid, fun key outcome hky hrt => ?_⟩
    rw [hke key hky]
    exact hkp.prepare_outcome? hpp hrt
  | history hre =>
    obtain ⟨hid, hke⟩ := State.applyHistory_outcome? hre
    refine ⟨hid, fun key outcome hky hrt => ?_⟩
    rw [hke key hky]
    exact hrt

lemma published_outcome? {state later} (hrun : Run (Publishes KeepsReplies) state log later)
    (hkept : ∀ record ∈ log, key ∉ record.removed) (hidx : state.historyIndexed = true)
    (hretained : state.outcome? key = some outcome) :
    later.historyIndexed = true ∧ later.outcome? key = some outcome := by
  induction hrun with
  | refl => exact ⟨hidx, hretained⟩
  | snoc _ last ih =>
    obtain ⟨_, hb⟩ := ih fun record hrc =>
      hkept record (List.mem_append_left _ hrc)
    obtain ⟨ha, hst⟩ := last.outcome?
    exact ⟨ha, hst key outcome (hkept _ (by simp)) hb⟩

/-- A valid transaction whose request has an outcome is answered with it and
changes nothing. -/
lemma State.prepareTxnRecord_retry {state : State} (clock completedAt byteLimit)
    (hidx : state.historyIndexed = true) (hkept : state.outcome? retry.request = some outcome) :
    state.prepareTxnRecord clock retry completedAt byteLimit = retry.validate.bind fun _ =>
        .ok (state, .conditionFailed state.revision (some outcome), none) := by
  have hen : state.ensureHistoryIndex = .ok state := by
    simp [State.ensureHistoryIndex, hidx]
  obtain ⟨owned, how, rfl⟩ := Option.map_eq_some_iff.mp hkept
  have hap : state.applyTxn clock retry = retry.validate.bind fun _ =>
      .ok (state, .conditionFailed state.revision (some owned.outcome)) := by
    unfold State.applyTxn State.applyValidated
    rw [how]
    rfl
  unfold State.prepareTxnRecord
  rw [hen]
  show (state.applyTxn clock retry >>= _) = _
  rw [hap]
  cases retry.validate with
  | error error | ok _ => rfl

omit [Footprint] [Codec] in
lemma MetaTxn.lastOutcome?_isSome {txn : MetaTxn} (hok : txn.validate = .ok ()) :
    (lastOutcome? txn.request txn.outcomes).isSome = true := by
  simp only [MetaTxn.validate, bind_eq_ok] at hok
  obtain ⟨_, _, _, _, _, _, _, _, _, _, hok⟩ := hok
  rw [ensure_eq_ok, List.any_eq_true] at hok
  obtain ⟨mutation, hmutation, hown⟩ := hok
  cases mutation with
  | put entity | delete key => cases hown
  | recordRequestOutcome owned =>
    simp only [Bool.and_eq_true, decide_eq_true_eq] at hown
    rw [lastOutcome?, List.find?_isSome]
    refine ⟨owned.outcome, ?_, by simpa using hown.1⟩
    rw [List.mem_reverse, MetaTxn.outcomes, List.mem_filterMap]
    exact ⟨_, hmutation, rfl⟩

/-- Retries observe the reply, and no other outcome is disturbed, exactly when
the transaction keeps replies. -/
theorem retry_observes_reply_iff {state prepared : State} {clock : ℕ → ℕ}
    {txn : MetaTxn} {completedAt byteLimit revision : ℕ}
    {reply : RequestOutcome} {record : Option RecordDecision}
    (hprep : state.prepareTxnRecord clock txn completedAt byteLimit =
      .ok (prepared, .committed revision reply, record)) :
    ((∀ key outcome, key ≠ txn.request → state.outcome? key = some outcome →
        prepared.outcome? key = some outcome) ∧
      ∀ log later, Run (Publishes KeepsReplies) prepared log later →
        (∀ record ∈ log, txn.request ∉ record.removed) →
        ∀ (retry : MetaTxn) (retryClock : ℕ → ℕ) (retryAt retryLimit : ℕ),
          retry.request = txn.request → later.prepareTxnRecord retryClock retry retryAt retryLimit =
            retry.validate.bind fun _ => .ok (later,
              .conditionFailed later.revision (some reply), none)) ↔
      KeepsReplies state (.transaction txn) := by
  have hdone : state.prepare clock (.transaction txn) completedAt byteLimit =
      .ok (prepared, .committed revision reply, record) := hprep
  obtain ⟨hgone, hreply, hindexed, hoverlay⟩ := State.prepare_outcome? hdone
  have hown : prepared.outcome? txn.request = lastOutcome? txn.request txn.outcomes := by
    refine (hoverlay txn.request).trans ?_
    rw [show state.outcome? txn.request = none from hgone]
    simp [Mutation.recorded]
  constructor
  · rintro ⟨hothers, hretries⟩
    obtain ⟨_, _, _, _, hprepared⟩ := State.prepareTxnRecord_committed hprep
    obtain ⟨hok, _⟩ := State.applyTxn_committed hprepared.committed
    refine ⟨?_, ?_⟩
    · obtain ⟨stored, hput⟩ := Option.isSome_iff_exists.mp (MetaTxn.lastOutcome?_isSome hok)
      have hretry := hretries [] prepared (.refl _) (by simp) txn clock 0 0 rfl
      rw [State.prepareTxnRecord_retry clock 0 0 hindexed (hown.trans hput), hok] at hretry
      cases hretry
      exact hreply.trans hput.symm
    · intro key last outcome hkey hlast hretained
      have hkept := hothers key outcome hkey hretained
      rw [hoverlay key, Mutation.recorded, hlast] at hkept
      exact Option.some.inj hkept
  · intro hkeeps
    refine ⟨fun key outcome _ hretained =>
      hkeeps.prepare_outcome? hdone hretained, ?_⟩
    intro log later hrun hkept retry retryClock retryAt retryLimit hrequest
    have hput : prepared.outcome? txn.request = some reply :=
      hown.trans (hkeeps.1.symm.trans hreply)
    obtain ⟨hnext, houtcome⟩ := published_outcome? hrun hkept hindexed hput
    exact State.prepareTxnRecord_retry retryClock retryAt retryLimit hnext (hrequest ▸ houtcome)

end Steps

/-! ## Two outcomes for one request -/

/-- Records outcomes with the given results, all for its own request. -/
def recordingTxn (results : List OperationResult) : MetaTxn where
  request := ⟨"caller", "request"⟩
  operation := .dfsClaimReplicationTask
  conditions := [.requestAbsent ⟨"caller", "request"⟩]
  mutations := results.map fun result =>
    .recordRequestOutcome (.exact ⟨⟨"caller", "request"⟩, .dfsClaimReplicationTask, result⟩)

/-- The results of the committed reply and of the answer to a retry, on an empty
store. -/
def replyAndRetry (txn : MetaTxn) : Result (OperationResult × OperationResult) :=
  letI := plainFootprint
  letI := plainCodec
  do
    let (prepared, outcome, _) ← State.default.prepareTxnRecord (fun _ => 0) txn 1 65536
    match outcome with
    | .committed _ reply => do
        let (_, answer, _) ← prepared.prepareTxnRecord (fun _ => 0) txn 2 65536
        match answer with
        | .conditionFailed _ (some existing) =>
          return (reply.result, existing.result)
        | _ => .error (invalidContract "not answered")
    | _ => .error (invalidContract "not committed")

lemma replyAndRetry_eq_ok (hrun : replyAndRetry txn = .ok (first, second)) : letI := plainFootprint
    letI := plainCodec
    ∃ prepared revision reply record later retryRevision existing retryRecord,
      State.default.prepareTxnRecord (fun _ => 0) txn 1 65536 =
        .ok (prepared, .committed revision reply, record) ∧
      prepared.prepareTxnRecord (fun _ => 0) txn 2 65536 =
        .ok (later, .conditionFailed retryRevision (some existing), retryRecord) ∧
      reply.result = first ∧ existing.result = second := by
  obtain ⟨⟨prepared, outcome, record⟩, hpp, hrun⟩ := bind_eq_ok.mp hrun
  rcases outcome with ⟨revision, reply⟩ | ⟨_, _⟩
  · obtain ⟨⟨later, answer, retryRecord⟩, hrt, hrun⟩ := bind_eq_ok.mp hrun
    rcases answer with ⟨_, _⟩ | ⟨retryRevision, _ | existing⟩
    · cases hrun
    · cases hrun
    · cases hrun
      exact ⟨_, _, _, _, _, _, _, _, hpp, hrt, rfl, rfl⟩
  · cases hrun

/-- A transaction that records two results for its request replies with the
first one and answers its retry with the second. -/
theorem retry_misses_first_outcome : letI := plainFootprint
    letI := plainCodec
    ∃ prepared revision reply record later retryRevision existing retryRecord,
      State.default.prepareTxnRecord (fun _ => 0)
          (recordingTxn [.empty, .dfsReplicationClaim 0 none]) 1 65536 =
        .ok (prepared, .committed revision reply, record) ∧ prepared.prepareTxnRecord (fun _ => 0)
          (recordingTxn [.empty, .dfsReplicationClaim 0 none]) 2 65536 =
        .ok (later, .conditionFailed retryRevision (some existing), retryRecord) ∧
      reply.result = .empty ∧ existing.result = .dfsReplicationClaim 0 none :=
  replyAndRetry_eq_ok (by decide +kernel)

/-- A transaction with one outcome, retried at once. -/
theorem single_outcome_retry_observes_reply : letI := plainFootprint
    letI := plainCodec
    ∃ prepared revision reply record,
      State.default.prepareTxnRecord (fun _ => 0) (recordingTxn [.empty]) 1
          65536 = .ok (prepared, .committed revision reply, record) ∧
      prepared.prepareTxnRecord (fun _ => 0) (recordingTxn [.empty]) 2 65536 =
        .ok (prepared, .conditionFailed prepared.revision (some reply), none) := by
  have hrun : replyAndRetry (recordingTxn [.empty]) = .ok (.empty, .empty) := by
    decide +kernel
  obtain ⟨prepared, revision, reply, record, _, _, _, _, hprep, _⟩ := replyAndRetry_eq_ok hrun
  have hkeeps : KeepsReplies State.default (.transaction (recordingTxn [.empty])) :=
    ⟨by decide, by simp [State.outcome?, State.default]⟩
  have hretries := ((@retry_observes_reply_iff plainFootprint plainCodec _ _ _ _
    _ _ _ _ _ hprep).mpr hkeeps).2
  exact ⟨prepared, revision, reply, record, hprep,
    hretries [] prepared (.refl _) (by simp) (recordingTxn [.empty]) (fun _ => 0) 2 65536 rfl⟩

end AgentDx.Store
