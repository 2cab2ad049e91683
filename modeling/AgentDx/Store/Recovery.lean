import AgentDx.Store.Registration

/-!
# Recovery by replay

Every published step of the store has a record: a decision, a decision followed
by a retention step, or a retention step alone.  On every state such steps can
reach, replaying the record of one more step gives the state that step
publishes; hence replaying a whole log from the default state gives the state
published last.
-/

namespace AgentDx.Store

open Dfs Std Word OrderedMap Transition Result State

/-! ## Sound states -/

variable {state next : State}

section Sound

variable [Footprint]

/-- What the derived charge of a state may be relied on for. -/
structure State.Sound (state : State) : Prop where
  authority : state.authorityIndexed = true → state.authorityBytes = state.authorityWeight
  indexed : state.historyIndexed = true → state.authorityIndexed = true
  epochs : ∀ (node : String) epoch, state.nodeEpochs[node]? = some epoch → epoch < Word.size

lemma State.Sound.default : State.default.Sound where
  authority := by intro hidx; cases hidx
  indexed := by intro hidx; cases hidx
  epochs := by intro node epoch hepoch; simp [State.default] at hepoch

lemma State.Sound.ensureAuthorityIndex {indexed} (hinv : state.Sound)
    (hensure : state.ensureAuthorityIndex = .ok indexed) : indexed.AuthorityExact := by
  unfold State.ensureAuthorityIndex at hensure
  split at hensure
  next hidx =>
    cases hensure
    exact ⟨hidx, hinv.authority hidx⟩
  · obtain ⟨bytes, hbytes, hensure⟩ := bind_eq_ok.mp hensure
    cases hensure
    exact ⟨rfl, (authorityTotal_eq_ok.mp hbytes).1⟩

lemma State.Sound.ensureHistoryIndex {indexed} (hinv : state.Sound)
    (hensure : state.ensureHistoryIndex = .ok indexed) : indexed.AuthorityExact := by
  unfold State.ensureHistoryIndex at hensure
  split at hensure
  next hidx =>
    cases hensure
    exact ⟨hinv.indexed hidx, hinv.authority (hinv.indexed hidx)⟩
  · obtain ⟨ensured, hensured, hensure⟩ := bind_eq_ok.mp hensure
    obtain ⟨_, _, hensure⟩ := bind_eq_ok.mp hensure
    obtain ⟨_, _, hensure⟩ := bind_eq_ok.mp hensure
    obtain ⟨⟨_, _⟩, _, hensure⟩ := bind_eq_ok.mp hensure
    cases hensure
    have hexact := hinv.ensureAuthorityIndex hensured
    exact ⟨hexact.indexed, hexact.bytes_eq⟩

lemma State.AuthorityExact.sound (hexact : state.AuthorityExact)
    (hepochs : ∀ (node : String) epoch, state.nodeEpochs[node]? = some epoch →
      epoch < Word.size) : state.Sound :=
  ⟨fun _ => hexact.bytes_eq, fun _ => hexact.indexed, hepochs⟩

lemma State.accountHistoryChanges_frame
    (hcost : state.accountHistoryChanges previous keys eventsFrom completedAt = .ok next) :
    ∃ accounting, next = { state.withAccounting accounting with historyIndexed := true } := by
  obtain ⟨_, _, hcost⟩ := bind_eq_ok.mp hcost
  obtain ⟨_, _, hcost⟩ := bind_eq_ok.mp hcost
  obtain ⟨_, _, hcost⟩ := bind_eq_ok.mp hcost
  cases hcost
  exact ⟨_, rfl⟩

lemma State.AuthorityExact.replayEvent (hexact : state.AuthorityExact)
    (hredo : state.replayEvent event = .ok next) :
    next.AuthorityExact ∧ next.nodeEpochs = state.nodeEpochs := by
  obtain ⟨changed, hedit, hnext⟩ := bind_eq_ok.mp hredo
  cases hnext
  unfold State.replayChange at hedit
  split at hedit
  · have hnext := hexact.putAuthority hedit
    obtain ⟨bytes, _, rfl⟩ := putAuthority_eq_ok.mp hedit
    exact ⟨⟨hnext.indexed, hnext.bytes_eq⟩, rfl⟩
  · have hnext := hexact.deleteAuthority hedit
    obtain ⟨bytes, _, rfl⟩ := deleteAuthority_eq_ok.mp hedit
    exact ⟨⟨hnext.indexed, hnext.bytes_eq⟩, rfl⟩

lemma State.AuthorityExact.replayEvents {events : List WatchEvent} (hexact : state.AuthorityExact)
    (hredo : events.foldlM State.replayEvent state = .ok next) :
    next.AuthorityExact ∧ next.nodeEpochs = state.nodeEpochs := by
  refine foldlM_invariant
    (fun current =>
      current.AuthorityExact ∧ current.nodeEpochs = state.nodeEpochs)
    ?_ hredo ⟨hexact, rfl⟩
  rintro before event after _ ⟨hpre, heq⟩ hevent
  obtain ⟨hpost, hkept⟩ := hpre.replayEvent hevent
  exact ⟨hpost, hkept.trans heq⟩

lemma State.AuthorityExact.setEpochs {epochs : List (String × ℕ)} (hexact : state.AuthorityExact)
    (hset : epochs.foldlM (fun state item => state.setEpoch item.1 item.2) state = .ok next)
    (hepochs : ∀ item ∈ epochs, item.2 < Word.size)
    (hbound : ∀ (node : String) epoch, state.nodeEpochs[node]? = some epoch → epoch < Word.size) :
    next.AuthorityExact ∧ ∀ (node : String) epoch, next.nodeEpochs[node]? = some epoch →
        epoch < Word.size := by
  refine foldlM_invariant
    (fun current => current.AuthorityExact ∧
      ∀ (node : String) epoch, current.nodeEpochs[node]? = some epoch → epoch < Word.size)
    ?_ hset ⟨hexact, hbound⟩
  rintro before item after hitem ⟨hpre, hbounded⟩ hstep
  refine ⟨hpre.setEpoch hstep, ?_⟩
  obtain ⟨bytes, _, rfl⟩ := setEpoch_eq_ok.mp hstep
  intro node epoch hepoch
  rcases OrderedMap.getElem?_insert_cases hepoch with ⟨-, rfl⟩ | hepoch
  · exact hepochs item hitem
  · exact hbounded node epoch hepoch

/-- Replaying decided facts keeps a state sound and takes it to the decided
revision. -/
lemma State.Sound.replayFacts {facts : DecidedFacts} (hinv : state.Sound)
    (hepochs : ∀ item ∈ facts.nodeEpochs, item.2 < Word.size)
    (hredo : state.replayFacts facts = .ok next) :
    next.Sound ∧ next.revision = facts.revisionAfter := by
  simp only [State.replayFacts, bind_eq_ok] at hredo
  obtain ⟨_, _, _, _, _, _, _, _, _, _, indexed, hidx, changed, hedit, last, hlast, hredo⟩ := hredo
  have hexact := hinv.ensureHistoryIndex hidx
  obtain ⟨hpers, _, _⟩ := ensureHistoryIndex_persisted hidx
  have hnodes : indexed.nodeEpochs = state.nodeEpochs := congrArg Persisted.nodeEpochs hpers
  have hstart : (indexed.completeEvents facts.completedAtUnixMs
      facts.revisionAfter facts.events).AuthorityExact :=
    ⟨hexact.indexed, hexact.bytes_eq⟩
  obtain ⟨hchangedExact, heq⟩ := hstart.replayEvents hedit
  rw [replayOutcomes_eq] at hlast
  have hkept : State.AuthorityExact
      { changed.completeRequests facts.completedAtUnixMs facts.revisionAfter
          (facts.outcomes.map RequestOutcome.request) with
        requests := retainOutcomes changed.requests facts.outcomes } :=
    ⟨hchangedExact.indexed, hchangedExact.bytes_eq⟩
  obtain ⟨hlastExact, hbound⟩ := hkept.setEpochs hlast hepochs (by
    intro node epoch hepoch
    refine hinv.epochs node epoch ?_
    rw [← hnodes]
    exact heq ▸ hepoch)
  obtain ⟨accounting, rfl⟩ := accountHistoryChanges_frame hredo
  exact ⟨State.AuthorityExact.sound ⟨hlastExact.indexed, hlastExact.bytes_eq⟩ hbound, rfl⟩

end Sound

/-! ## Retention steps -/

section Retention

variable [Footprint]

/-- The stages of an applied retention step. -/
structure HistoryApplied (state : State) (delta : Delta) (next : State)
    (indexed retired : State) (history : Index) (removed : ℕ) : Prop where
  valid : delta.validate = .ok ()
  revision_eq : delta.revision = state.revision
  compactedFrom_eq : delta.compactedFrom = state.compactedTo
  held : ∀ item ∈ delta.requests, state.requests.contains item.key = true ∧
    state.requestCompletion[item.key]? = some item.completion
  counted : countRemoved state.compactedTo delta.compactedTo state.events 0
    state.compactedTo = .ok (removed, delta.compactedTo)
  fits : state.eventsRemoved + removed < Word.size
  ensured : state.ensureHistoryIndex = .ok indexed
  applied : indexed.history.apply delta state.revision state.compactedTo = .ok history
  retires : delta.requests.foldlM State.retireRequest
    { indexed with history := history } = .ok retired
  next_eq : next = { retired with
    events := retired.events.drop removed
    eventCompletion := retired.eventCompletion.filter
      fun revision _ => decide (delta.compactedTo < revision)
    eventsRemoved := state.eventsRemoved + removed
    compactedTo := delta.compactedTo }

lemma State.applyHistory_applied (happ : state.applyHistory delta = .ok next) :
    ∃ indexed retired history removed,
      HistoryApplied state delta next indexed retired history removed := by
  simp only [State.applyHistory, bind_eq_ok] at happ
  obtain ⟨_, hok, _, hfollows, _, hheld, ⟨removed, last⟩, hcnt, _, hlast, eventsRemoved, hgone,
    indexed, hidx, history, hhistory, retired, hret, happ⟩ := happ
  cases happ
  simp only [ensure_eq_ok, decide_eq_true_eq] at hfollows hlast
  simp only [ensure_eq_ok, List.all_eq_true, Bool.and_eq_true, decide_eq_true_eq] at hheld
  simp only [okOr_eq_ok, checkedAdd_eq_some] at hgone
  obtain ⟨hfits, rfl⟩ := hgone
  subst hlast
  exact ⟨indexed, retired, history, removed, hok, hfollows.1, hfollows.2, hheld, hcnt, hfits, hidx,
    hhistory, hret, rfl⟩

omit [Footprint] in
lemma State.retireRequests_frame {items : List RemovedRequest}
    (hdrop : items.foldlM State.retireRequest state = .ok next) :
    ∃ requests completion commands bytes, next = { state with
      requests := requests
      requestCompletion := completion
      commandHistory := commands
      commandHistoryBytes := bytes } := by
  refine foldlM_invariant
    (fun current => ∃ requests completion commands bytes, current = { state with
        requests := requests
        requestCompletion := completion
        commandHistory := commands
        commandHistoryBytes := bytes })
    ?_ hdrop ⟨_, _, _, _, rfl⟩
  rintro before item after _ ⟨_, _, _, _, rfl⟩ hstep
  obtain ⟨_, _, hstep⟩ := bind_eq_ok.mp hstep
  obtain ⟨⟨index, commands, bytes⟩, hcmd, hstep⟩ := bind_eq_ok.mp hstep
  obtain ⟨_, _, hcmd⟩ := bind_eq_ok.mp hcmd
  cases hcmd
  cases hstep
  exact ⟨_, _, _, _, rfl⟩

lemma State.Sound.applyHistory {delta} (hinv : state.Sound)
    (happly : state.applyHistory delta = .ok next) : next.Sound := by
  obtain ⟨indexed, retired, history, removed, happ⟩ := applyHistory_applied happly
  have hexact := hinv.ensureHistoryIndex happ.ensured
  obtain ⟨hpers, _, _⟩ := ensureHistoryIndex_persisted happ.ensured
  have hnodes : indexed.nodeEpochs = state.nodeEpochs := congrArg Persisted.nodeEpochs hpers
  obtain ⟨_, _, _, _, rfl⟩ := retireRequests_frame happ.retires
  rw [happ.next_eq]
  refine State.AuthorityExact.sound ⟨hexact.indexed, hexact.bytes_eq⟩ ?_
  intro node epoch hepoch
  refine hinv.epochs node epoch ?_
  rw [← hnodes]
  exact hepoch

end Retention

/-! ## Published steps -/

/-- What callers queue. -/
inductive Mutation where
  | transaction (txn : MetaTxn)
  | registerNode (request : RequestKey) (lease : NodeSessionLease)

/-- Only transactions hand over buffers that the store keeps. -/
def Mutation.spareFree : Mutation → Bool
  | .transaction txn => txn.spareFree
  | .registerNode _ _ => true

section Publish

variable [Footprint] [Codec]

def State.prepare (state : State) (clock : ℕ → ℕ) (mutation : Mutation)
    (completedAt byteLimit : ℕ) : Result (State × TxnOutcome × Option RecordDecision) :=
  match mutation with
  | .transaction txn => state.prepareTxnRecord clock txn completedAt byteLimit
  | .registerNode request lease =>
    state.prepareNodeRecord (clock 0) request lease completedAt byteLimit

/-- One published step and its record: a committed mutation the condition
`Admits` allows, with or without a retention step on top, or a retention step
alone. -/
inductive Publishes (Admits : State → Mutation → Prop) : State → Record → State → Prop where
  | decided {state prepared clock mutation completedAt byteLimit revision reply record}
      (hadmits : Admits state mutation)
      (hprepare : state.prepare clock mutation completedAt byteLimit =
        .ok (prepared, .committed revision reply, some record)) :
      Publishes Admits state (.decision record none) prepared
  | retained {state prepared next clock mutation completedAt byteLimit revision reply record delta}
      (hadmits : Admits state mutation)
      (hprepare : state.prepare clock mutation completedAt byteLimit =
        .ok (prepared, .committed revision reply, some record))
      (hretain : prepared.applyHistory delta = .ok next) :
      Publishes Admits state (.decision record (some delta)) next
  | history {state : State} {next delta} (hretain : state.applyHistory delta = .ok next) :
      Publishes Admits state (.history delta) next

/-- Mutations that own no spare capacity. -/
def SpareFree (_ : State) (mutation : Mutation) : Prop := mutation.spareFree = true

variable {record : RecordDecision}

omit [Footprint] in
lemma RecordDecision.revisionAfter_facts {facts} (hfacts : record.facts = .ok facts) :
    record.revisionAfter = facts.revisionAfter := by
  simp only [RecordDecision.facts, bind_eq_ok] at hfacts
  obtain ⟨_, _, _, _, _, _, _, _, hfacts⟩ := hfacts
  cases hfacts
  rfl

lemma State.Sound.replayDecision (hinv : state.Sound)
    (hcaptured : RecordDecision.new input byteLimit = .ok record)
    (hepochs : ∀ item ∈ input.nodeEpochs, item.2 < Word.size)
    (hredo : state.replayDecision record = .ok prepared) :
    prepared.Sound ∧ record.validate = .ok () ∧ record.revisionAfter = prepared.revision := by
  obtain ⟨hok, hfacts⟩ := RecordDecision.facts_new hcaptured
  rw [State.replayDecision, hfacts] at hredo
  obtain ⟨hpre, hrev⟩ := hinv.replayFacts hepochs hredo
  refine ⟨hpre, hok, ?_⟩
  rw [RecordDecision.revisionAfter_facts hfacts, hrev]

/-- The record of a committed preparation is valid, and replaying it gives the
prepared state. -/
lemma State.Sound.prepare_replay {completedAt byteLimit revision} (hinv : state.Sound)
    (hfree : mutation.spareFree = true)
    (hprep : state.prepare clock mutation completedAt byteLimit =
      .ok (prepared, .committed revision reply, some record)) :
    state.replayDecision record = .ok prepared ∧ prepared.Sound ∧
      record.validate = .ok () ∧ record.revisionAfter = prepared.revision := by
  cases mutation with
  | transaction txn =>
    obtain ⟨_, indexed, applied, hrec, hpre⟩ := prepareTxnRecord_committed hprep
    cases hrec
    have hredo := hpre.replayDecision_eq hfree
    exact ⟨hredo, hinv.replayDecision hpre.captured (by simp [MetaTxn.decision]) hredo⟩
  | registerNode request lease =>
    obtain ⟨_, indexed, applied, epochs, hrec, hpre⟩ := prepareNodeRecord_committed hprep
    cases hrec
    have hexact := hinv.ensureHistoryIndex hpre.ensured
    have hredo := hpre.replayDecision_eq hexact hinv.epochs
    obtain ⟨_, _, _, _, hreg⟩ := registerNodeSession_committed hpre.committed
    have hsettles := hpre.settles hexact hinv.epochs hreg
    exact ⟨hredo, hinv.replayDecision hpre.captured hsettles.bounded hredo⟩

/-- One published step keeps a state sound and is replayed from its record. -/
lemma Publishes.replayRecord {record} (hinv : state.Sound)
    (hstep : Publishes SpareFree state record next) :
    state.replayRecord record = .ok next ∧ next.Sound := by
  cases hstep with
  | decided hfree hprep =>
    obtain ⟨hredo, hpre, hok, _⟩ := hinv.prepare_replay hfree hprep
    exact ⟨bind_eq_ok.mpr ⟨(), hok, hredo⟩, hpre⟩
  | retained hfree hprep hretain =>
    obtain ⟨hredo, hpre, hok, hrev⟩ := hinv.prepare_replay hfree hprep
    obtain ⟨_, _, _, _, happ⟩ := applyHistory_applied hretain
    refine ⟨bind_eq_ok.mpr ⟨(), ?_, ?_⟩, hpre.applyHistory hretain⟩
    · refine bind_eq_ok.mpr ⟨(), hok, ?_⟩
      refine bind_eq_ok.mpr ⟨(), happ.valid, ?_⟩
      simp [happ.revision_eq, hrev]
    · exact bind_eq_ok.mpr ⟨_, hredo, hretain⟩
  | history hretain =>
    obtain ⟨_, _, _, _, happ⟩ := applyHistory_applied hretain
    exact ⟨bind_eq_ok.mpr ⟨(), happ.valid, hretain⟩, hinv.applyHistory hretain⟩

lemma reachable_sound {log} (hrun : Run (Publishes SpareFree) State.default log state) :
    state.Sound :=
  hrun.invariant (fun hinv hstep => (hstep.replayRecord hinv).2) State.Sound.default

end Publish

/-! ## A small transaction -/

/-- A layout in which only the fixed parts of values are charged. -/
abbrev plainFootprint : Footprint where
  entityHeap _ := 0
  resultHeap _ := 0
  sizeString := 24
  sizeMetaKey := 96
  sizeVersionedEntity := 512
  sizeRequestKey := 48
  sizeRequestOutcome := 512
  sizeWatchEvent := 640

abbrev plainCodec : Codec where
  entitySize _ := 1
  valueSize _ := 1
  decisionSize _ := 1
  entityFingerprint _ := 0
  claimFingerprint _ := 0
  sizePooledValue := 512
  sizeChange := 128
  sizeSavedOutcome := 256
  sizeNodeEpoch := 32

/-- Deletes one key, which is handed in with some spare capacity. -/
def deletingTxn (spare : ℕ) : MetaTxn where
  request := ⟨"caller", "request"⟩
  operation := .dfsCollectGarbage
  conditions := [.requestAbsent ⟨"caller", "request"⟩]
  mutations := [.delete ⟨.dfsInode "7", spare⟩,
    .recordRequestOutcome (.exact ⟨⟨"caller", "request"⟩, .dfsCollectGarbage, .empty⟩)]

end AgentDx.Store
