import AgentDx.Lib.Run
import AgentDx.Store.Authority
import AgentDx.Store.Capture

/-!
# Replaying a record reproduces the decision

A transaction or registration is applied by one implementation and replayed from
its record by another.  The two agree, field by field and index by index, as
long as the values handed in by the transaction own no spare capacity: then the
replayed state is the prepared one.  By induction, replaying the log of a run
gives the state the run published last.
-/

namespace AgentDx.Store

open Dfs Std Word OrderedMap Transition Result

/-! ## Persisted fields -/

/-- The fields of a state that records and images carry. -/
structure Persisted where
  revision : ℕ
  entities : ExtTreeMap MetaKey VersionedEntity
  requests : ExtTreeMap RequestKey OwnedOutcome
  requestCompletion : ExtTreeMap RequestKey RequestCompletion
  compactedTo : ℕ
  eventsRemoved : ℕ
  eventCompletion : ExtTreeMap ℕ ℕ
  events : List (Owned WatchEvent)
  nodeEpochs : ExtTreeMap String ℕ

def State.persisted (state : State) : Persisted where
  revision := state.revision
  entities := state.entities
  requests := state.requests
  requestCompletion := state.requestCompletion
  compactedTo := state.compactedTo
  eventsRemoved := state.eventsRemoved
  eventCompletion := state.eventCompletion
  events := state.events
  nodeEpochs := state.nodeEpochs

variable {state : State}

section Indexing

variable [Footprint]

variable {next : State}

lemma State.ensureAuthorityIndex_persisted (hensure : state.ensureAuthorityIndex = .ok next) :
    next.persisted = state.persisted ∧ next.logTip = state.logTip ∧
      next.authorityIndexed = true := by
  unfold State.ensureAuthorityIndex at hensure
  split at hensure
  next hid =>
    cases hensure
    exact ⟨rfl, rfl, hid⟩
  · obtain ⟨bytes, _, hnx⟩ := bind_eq_ok.mp hensure
    cases hnx
    exact ⟨rfl, rfl, rfl⟩

lemma State.rebuildHistoryIndex_persisted (hrebuild : state.rebuildHistoryIndex = .ok next) :
    next.persisted = state.persisted ∧ next.logTip = state.logTip ∧
      next.historyIndexed = true ∧ next.authorityIndexed = true := by
  obtain ⟨indexed, hid, hrebuild⟩ := bind_eq_ok.mp hrebuild
  obtain ⟨_, _, hrebuild⟩ := bind_eq_ok.mp hrebuild
  obtain ⟨accounting, _, hrebuild⟩ := bind_eq_ok.mp hrebuild
  obtain ⟨⟨last, index⟩, _, hnx⟩ := bind_eq_ok.mp hrebuild
  cases hnx
  obtain ⟨hpr, htp, hat⟩ := State.ensureAuthorityIndex_persisted hid
  exact ⟨hpr, htp, rfl, hat⟩

lemma State.ensureHistoryIndex_persisted (hensure : state.ensureHistoryIndex = .ok next) :
    next.persisted = state.persisted ∧ next.logTip = state.logTip ∧ next.historyIndexed = true := by
  unfold State.ensureHistoryIndex at hensure
  split at hensure
  next hid =>
    cases hensure
    exact ⟨rfl, rfl, hid⟩
  · obtain ⟨hpr, htp, hid, _⟩ := State.rebuildHistoryIndex_persisted hensure
    exact ⟨hpr, htp, hid⟩

lemma State.accountHistoryChanges_indexed (state previous : State)
    (flag : Bool) (keys : List RequestKey) (eventsFrom completedAt : ℕ) :
    State.accountHistoryChanges { state with historyIndexed := flag } previous
        keys eventsFrom completedAt =
      state.accountHistoryChanges previous keys eventsFrom completedAt := rfl

end Indexing

/-! ## Mutations and their events -/

variable {revision : ℕ}

section Mutations

variable [Footprint]

/-- The outcome map after retaining clones of the outcomes. -/
def retainOutcomes (requests : ExtTreeMap RequestKey OwnedOutcome)
    (outcomes : List RequestOutcome) : ExtTreeMap RequestKey OwnedOutcome :=
  outcomes.foldl (fun requests outcome =>
    requests.insert outcome.request (.exact outcome)) requests

/-- Two states with the same authority, whatever else they hold. -/
structure SameAuthority (left right : State) : Prop where
  entities : left.entities = right.entities
  authorityBytes : left.authorityBytes = right.authorityBytes
  authorityIndexed : left.authorityIndexed = right.authorityIndexed
  events : left.events = right.events

variable {left right : State}

lemma SameAuthority.putBytes (heq : SameAuthority left right) (key entity) :
    left.putBytes key entity = right.putBytes key entity := by
  simp only [State.putBytes, State.heldCharge, heq.entities,
    heq.authorityBytes, heq.authorityIndexed]

lemma SameAuthority.deleteBytes (heq : SameAuthority left right) (key) :
    left.deleteBytes key = right.deleteBytes key := by
  simp only [State.deleteBytes, State.heldCharge, heq.entities,
    heq.authorityBytes, heq.authorityIndexed]

omit [Footprint] in
lemma SameAuthority.withAuthority (heq : SameAuthority left right)
    (entities authorityBytes events) :
    SameAuthority (left.withAuthority entities authorityBytes events)
      (right.withAuthority entities authorityBytes events) :=
  ⟨rfl, rfl, heq.authorityIndexed, rfl⟩

/-- Replaying a list of events leads to the same authority on top of `other`
as the mutations built on top of `before`, where they also retained outcomes. -/
def ReplaysTo (before after other : State) (outcomes : List RequestOutcome)
    (events : List WatchEvent) : Prop :=
  ∃ entities bytes, after = { before.withAuthority entities bytes
        (before.events ++ events.map .exact) with
      requests := retainOutcomes before.requests outcomes } ∧
    events.foldlM State.replayEvent other =
      .ok (other.withAuthority entities bytes (before.events ++ events.map .exact))

lemma ReplaysTo.cons (hevent : other.replayChange event =
      .ok { other with entities := entities, authorityBytes := bytes })
    (heq : SameAuthority before other)
    (hr : ReplaysTo
      (before.withAuthority entities bytes (before.events ++ [.exact event]))
      after
      (other.withAuthority entities bytes (before.events ++ [.exact event]))
      outcomes events) : ReplaysTo before after other outcomes (event :: events) := by
  obtain ⟨lastEntities, lastBytes, rfl, hrp⟩ := hr
  refine ⟨lastEntities, lastBytes, by simp [State.withAuthority], ?_⟩
  rw [List.foldlM_cons]
  refine bind_eq_ok.mpr ⟨other.withAuthority entities bytes
    (before.events ++ [.exact event]), ?_, ?_⟩
  · refine bind_eq_ok.mpr ⟨_, hevent, ?_⟩
    simp [State.withAuthority, heq.events]
  · rw [hrp]
    simp [State.withAuthority]

/-- Applying mutations is the same as replaying the events they emit and
retaining the outcomes they record. -/
lemma applyMutations_replay {mutations : List TxnMutation}
    (hfree : mutations.all TxnMutation.spareFree = true) (heq : SameAuthority before other)
    (happ : mutations.foldlM (State.applyMutation revision)
      (before, eventIndex) = .ok (after, lastIndex)) : ∃ events : List WatchEvent,
      ReplaysTo before after other (mutations.filterMap TxnMutation.outcome?) events ∧
      ∀ first ∈ events.head?, first.eventIndex = eventIndex := by
  induction mutations generalizing before other eventIndex with
  | nil =>
    cases happ
    refine ⟨[], ⟨after.entities, after.authorityBytes, ?_, ?_⟩, by simp⟩
    · simp [State.withAuthority, retainOutcomes]
    · simp [State.withAuthority, heq.entities, heq.authorityBytes, heq.events, pure, Except.pure]
  | cons mutation mutations ih =>
    rw [List.foldlM_cons] at happ
    obtain ⟨⟨middle, nextIndex⟩, hst, htl⟩ := bind_eq_ok.mp happ
    simp only [List.all_cons, Bool.and_eq_true] at hfree
    obtain ⟨hmt, hfree⟩ := hfree
    rcases State.applyMutation_cases hst with
      ⟨⟨entity, spare⟩, bytes, rfl, hby, rfl, rfl⟩ |
      ⟨⟨key, spare⟩, bytes, rfl, hby, rfl, rfl⟩ |
      ⟨⟨outcome, spare, keySpare⟩, rfl, rfl, rfl⟩
    · obtain rfl : spare = 0 := by
        simpa [TxnMutation.spareFree] using hmt
      obtain ⟨events, hr, _⟩ := ih hfree (heq.withAuthority _ _ _) htl
      refine ⟨_ :: events, ReplaysTo.cons ?_ heq hr, by simp⟩
      refine State.putAuthority_eq_ok.mpr ⟨bytes, ?_, ?_⟩
      · rw [← heq.putBytes]
        exact hby
      · rw [← heq.entities]
    · obtain rfl : spare = 0 := by
        simpa [TxnMutation.spareFree] using hmt
      obtain ⟨events, hr, _⟩ := ih hfree (heq.withAuthority _ _ _) htl
      refine ⟨_ :: events, ReplaysTo.cons ?_ heq hr, by simp⟩
      refine State.deleteAuthority_eq_ok.mpr ⟨bytes, ?_, ?_⟩
      · rw [← heq.deleteBytes]
        exact hby
      · rw [← heq.entities]
        rfl
    · obtain ⟨rfl, rfl⟩ : spare = 0 ∧ keySpare = 0 := by
        simpa [TxnMutation.spareFree] using hmt
      have hrt : SameAuthority { before with
          requests := before.requests.insert outcome.request (.exact outcome) } other :=
        ⟨heq.entities, heq.authorityBytes, heq.authorityIndexed, heq.events⟩
      obtain ⟨events, hr, hfs⟩ := ih hfree hrt htl
      exact ⟨events, hr, hfs⟩

end Mutations

/-! ## What preparing a transaction does -/

variable {applied prepared : State} {clock : ℕ → ℕ} {txn : MetaTxn}
  {reply : RequestOutcome}

section Prepare

variable [Footprint]

/-- A committed application: the request was new, the conditions held, and the
reply is the first recorded outcome. -/
lemma State.applyTxn_committed
    (happ : state.applyTxn clock txn = .ok (applied, .committed revision reply)) :
    txn.validate = .ok () ∧ state.requests[txn.request]? = none ∧
      conditionsMatch state clock txn.conditions = true ∧ txn.outcomes.head? = some reply ∧
      revision = nextRevision state.revision ∧
      ∃ lastIndex, txn.mutations.foldlM (State.applyMutation revision)
        ({ state with historyIndexed := false, revision := revision }, 0) =
          .ok (applied, lastIndex) := by
  obtain ⟨_, hv, happ⟩ := bind_eq_ok.mp happ
  unfold State.applyValidated at happ
  split at happ
  · cases happ
  next hab =>
    split at happ
    · cases happ
    next hm =>
      obtain ⟨first, hfs, happ⟩ := bind_eq_ok.mp happ
      obtain ⟨⟨after, lastIndex⟩, hfl, happ⟩ := bind_eq_ok.mp happ
      cases happ
      exact ⟨hv, hab, by simpa using hm, by simpa using hfs, rfl, lastIndex, hfl⟩

lemma State.applyTxn_conditionFailed
    (happ : state.applyTxn clock txn = .ok (applied, .conditionFailed revision existing)) :
    applied = state ∧ revision = state.revision ∧
      existing = state.requests[txn.request]?.map OwnedOutcome.outcome := by
  obtain ⟨_, _, happ⟩ := bind_eq_ok.mp happ
  unfold State.applyValidated at happ
  split at happ
  next retained hrt =>
    cases happ
    simp [hrt]
  next hab =>
    split at happ
    · cases happ
      simp [hab]
    · obtain ⟨_, _, happ⟩ := bind_eq_ok.mp happ
      obtain ⟨⟨_, _⟩, _, happ⟩ := bind_eq_ok.mp happ
      cases happ

variable [Codec]

/-- The decision captured for a committed transaction. -/
def MetaTxn.decision (txn : MetaTxn) (state applied : State)
    (reply : RequestOutcome) (completedAt : ℕ) : DecisionInput where
  request := txn.request
  operation := txn.operation
  revisionBefore := state.revision
  revisionAfter := nextRevision state.revision
  completedAtUnixMs := completedAt
  events := applied.eventsSince state.events.length
  outcomes := txn.outcomes
  reply := reply
  nodeEpochs := []

/-- The stages of a committed preparation. -/
structure PreparedTxn (state : State) (clock : ℕ → ℕ) (txn : MetaTxn)
    (completedAt byteLimit : ℕ) (prepared : State) (revision : ℕ)
    (reply : RequestOutcome) (record : RecordDecision)
    (indexed applied : State) : Prop where
  ensured : state.ensureHistoryIndex = .ok indexed
  committed : indexed.applyTxn clock txn = .ok (applied, .committed revision reply)
  advanced : revision = nextRevision state.revision
  captured : RecordDecision.new (txn.decision state applied reply completedAt)
    byteLimit = .ok record
  accounted : State.accountHistoryChanges
    ((applied.completeRequests completedAt revision
      (txn.outcomes.map RequestOutcome.request)).completeEvents completedAt
        revision (applied.eventsSince state.events.length)) state
    (txn.outcomes.map RequestOutcome.request) state.events.length completedAt = .ok prepared

lemma State.prepareTxnRecord_committed
    (hprep : state.prepareTxnRecord clock txn completedAt byteLimit =
      .ok (prepared, .committed revision reply, record)) :
    ∃ decided indexed applied, record = some decided ∧
      PreparedTxn state clock txn completedAt byteLimit prepared revision reply
        decided indexed applied := by
  obtain ⟨indexed, hid, hprep⟩ := bind_eq_ok.mp hprep
  obtain ⟨⟨applied, outcome⟩, hap, hprep⟩ := bind_eq_ok.mp hprep
  cases outcome with
  | conditionFailed _ _ => cases hprep
  | committed revision reply =>
    obtain ⟨decided, hdc, hprep⟩ := bind_eq_ok.mp hprep
    obtain ⟨accounted, hac, hprep⟩ := bind_eq_ok.mp hprep
    cases hprep
    obtain ⟨_, _, _, _, hrv, _⟩ := State.applyTxn_committed hap
    obtain ⟨hpr, _, _⟩ := State.ensureHistoryIndex_persisted hid
    have heq : indexed.revision = state.revision := congrArg Persisted.revision hpr
    rw [heq] at hrv
    subst hrv
    exact ⟨decided, indexed, applied, rfl, hid, hap, rfl, hdc, hac⟩

end Prepare

/-! ## Replaying a transaction -/

section ReplayTxn

lemma replayOutcomes_eq (completedAt revision) (outcomes : List RequestOutcome) (state) :
    outcomes.foldl (State.replayOutcome completedAt revision) state =
      { state.completeRequests completedAt revision
          (outcomes.map RequestOutcome.request) with
        requests := retainOutcomes state.requests outcomes } := by
  induction outcomes generalizing state with
  | nil => rfl
  | cons outcome outcomes ih =>
    rw [List.foldl_cons, ih]
    rfl

lemma eventsSince_append (state : State) (earlier) (events : List WatchEvent)
    (hlog : state.events = earlier ++ events.map .exact) :
    state.eventsSince earlier.length = events := by
  simp [State.eventsSince, hlog, Owned.exact, Function.comp_def]

variable [Footprint] [Codec]

omit [Codec] in
lemma State.replayFacts_eq_ok (hfollows : facts.revisionBefore = state.revision)
    (hbase : state.eventBaseValid facts = .ok true) (hgone : state.requests[facts.request]? = none)
    (hepochs : ∀ item ∈ facts.nodeEpochs, ∀ old, state.nodeEpochs[item.1]? = some old → old ≤
      item.2)
    (hensured : state.ensureHistoryIndex = .ok indexed)
    (hedit : facts.events.foldlM State.replayEvent
      (indexed.completeEvents facts.completedAtUnixMs facts.revisionAfter
        facts.events) = .ok changed)
    (hlast : facts.nodeEpochs.foldlM
      (fun state item => state.setEpoch item.1 item.2)
      ({ changed.completeRequests facts.completedAtUnixMs facts.revisionAfter
          (facts.outcomes.map RequestOutcome.request) with
        requests := retainOutcomes changed.requests facts.outcomes } : State) = .ok last)
    (hcosts : State.accountHistoryChanges
      { last with revision := facts.revisionAfter } state
      (facts.outcomes.map RequestOutcome.request) state.events.length
      facts.completedAtUnixMs = .ok prepared) : state.replayFacts facts = .ok prepared := by
  refine bind_eq_ok.mpr ⟨(), by simpa using hfollows, ?_⟩
  refine bind_eq_ok.mpr ⟨true, hbase, ?_⟩
  refine bind_eq_ok.mpr ⟨(), by simp, ?_⟩
  refine bind_eq_ok.mpr ⟨(), ?_, ?_⟩
  · rw [ensure_eq_ok, ← ExtTreeMap.isSome_getElem?_eq_contains, hgone]
    rfl
  refine bind_eq_ok.mpr ⟨(), ?_, ?_⟩
  · rw [ensure_eq_ok, List.all_eq_true]
    intro item him
    cases hol : state.nodeEpochs[item.1]? with
    | none => rfl
    | some old => simpa [hol] using hepochs item him old hol
  refine bind_eq_ok.mpr ⟨indexed, hensured, ?_⟩
  refine bind_eq_ok.mpr ⟨changed, hedit, ?_⟩
  refine bind_eq_ok.mpr ⟨last, ?_, hcosts⟩
  rw [replayOutcomes_eq]
  exact hlast

/-- Replaying the record of a committed transaction that owns no spare capacity
gives the prepared state. -/
lemma PreparedTxn.replayDecision_eq {completedAt byteLimit} (hfree : txn.spareFree = true)
    (hpre : PreparedTxn state clock txn completedAt byteLimit prepared revision reply record indexed
      applied) :
    state.replayDecision record = .ok prepared := by
  obtain ⟨hen, hcm, rfl, hcp, hac⟩ := hpre
  obtain ⟨hpr, _, _⟩ := State.ensureHistoryIndex_persisted hen
  have hev : indexed.events = state.events := congrArg Persisted.events hpr
  have hrq : indexed.requests = state.requests := congrArg Persisted.requests hpr
  obtain ⟨_, hab, _, _, _, lastIndex, hfl⟩ := State.applyTxn_committed hcm
  have heq : SameAuthority
      { indexed with
        historyIndexed := false, revision := nextRevision state.revision }
      (indexed.completeEvents completedAt (nextRevision state.revision)
        (applied.eventsSince state.events.length)) :=
    ⟨rfl, rfl, rfl, rfl⟩
  obtain ⟨events, ⟨entities, bytes, hap, hrp⟩, hfs⟩ := applyMutations_replay hfree heq hfl
  have hsn : applied.eventsSince state.events.length = events := by
    rw [← hev]
    apply eventsSince_append
    rw [hap]
    rfl
  refine bind_eq_ok.mpr
    ⟨txn.decision state applied reply completedAt, (RecordDecision.facts_new hcp).2, ?_⟩
  have hch := hrp
  rw [← hsn] at hch
  refine State.replayFacts_eq_ok rfl ?_ (hrq ▸ hab) (by simp [MetaTxn.decision]) hen hch rfl ?_
  · simp only [State.eventBaseValid, MetaTxn.decision, hsn]
    cases events with
    | nil => rfl
    | cons first events => simp [hfs first (by simp)]
  · rw [← hac, hsn]
    subst hap
    refine Eq.trans ?_ (State.accountHistoryChanges_indexed _ _ indexed.historyIndexed _ _ _)
    rfl

end ReplayTxn

end AgentDx.Store
