import AgentDx.Store.IndexSteps

/-!
# The incremental indexes equal a rebuild

Commits, replayed records and retention steps adjust the derived indexes by what
they change.  As long as a decision records at most one outcome for each request
and deletes under keys without spare capacity, every state they reach has the
indexes of its own records, which are what the rebuild computes.
-/

namespace AgentDx.Store

open Dfs Std Word Keyed OrderedMap Cut Transition Result List ExtTreeMap

/-! ## Replayed records -/

section Replay

lemma mapM_eq_ok_map {A B C : Type} {apply : A → Result B} {left : A → C} {right}
    (hcopies : ∀ item value, apply item = .ok value → right value = left item) {items : List A}
    {values} (hmap : items.mapM apply = .ok values) : values.map right = items.map left := by
  induction items generalizing values with
  | nil =>
    cases hmap
    rfl
  | cons item items ih =>
    simp only [mapM_cons, bind_eq_ok, pure_eq_ok] at hmap
    obtain ⟨value, hvl, rest, hr, rfl⟩ := hmap
    rw [map_cons, map_cons, ih hr, hcopies item value hvl]

variable [Footprint] [Codec]

/-- The record decides at most one outcome for each request. -/
def RecordDecision.accountable (record : RecordDecision) : Bool :=
  decide (record.outcomes.map SavedOutcome.request).Nodup

def Record.accountable : Record → Bool
  | .decision decided _ => decided.accountable
  | .history _ => true

omit [Footprint] in
lemma RecordDecision.facts_numbered {record : RecordDecision} {facts}
    (hfacts : record.facts = .ok facts) : facts.revisionAfter = facts.revisionBefore + 1 ∧
      (∀ event ∈ facts.events, event.revision = facts.revisionAfter) ∧
      facts.outcomes.map RequestOutcome.request = record.outcomes.map SavedOutcome.request := by
  simp only [RecordDecision.facts, bind_eq_ok] at hfacts
  obtain ⟨_, hok, events, hlog, outcomes, houts, _, _, hfacts⟩ := hfacts
  cases hfacts
  obtain ⟨_, _, hok⟩ := bind_eq_ok.mp hok
  obtain ⟨_, hschema, _⟩ := bind_eq_ok.mp hok
  simp only [ensure_eq_ok, Bool.and_eq_true, decide_eq_true_eq, checkedAdd_eq_some] at hschema
  have hrevs : events.map WatchEvent.revision =
      record.changes.zipIdx.map fun _ => record.revisionAfter := by
    apply mapM_eq_ok_map _ hlog
    intro item event hevent
    obtain ⟨_, _, hevent⟩ := bind_eq_ok.mp hevent
    obtain ⟨_, _, hevent⟩ := bind_eq_ok.mp hevent
    cases hevent
    rfl
  refine ⟨hschema.1.2.2.symm, ?_, ?_⟩
  · intro event hevent
    have hmem := mem_map_of_mem hevent (f := WatchEvent.revision)
    rw [hrevs] at hmem
    obtain ⟨_, _, hrev⟩ := mem_map.mp hmem
    exact hrev.symm
  · apply mapM_eq_ok_map _ houts
    intro saved outcome hback
    obtain ⟨_, _, hback⟩ := bind_eq_ok.mp hback
    obtain ⟨_, _, hback⟩ := bind_eq_ok.mp hback
    cases hback
    rfl

variable {state next : State}

omit [Codec] in
lemma State.Charged.replayEvents {events : List WatchEvent} (hsum : state.Charged)
    (hredo : events.foldlM State.replayEvent state = .ok next) : next.Charged := by
  refine foldlM_invariant State.Charged ?_ hredo hsum
  intro before event after _ hb hst
  obtain ⟨changed, hch, hst⟩ := bind_eq_ok.mp hst
  cases hst
  have hmd : changed.Charged := by
    unfold State.replayChange at hch
    split at hch
    · exact hb.putAuthority hch
    · exact hb.deleteAuthority hch
  exact hmd.of_same rfl rfl rfl rfl

omit [Codec] in
lemma State.replayEvents_frame {events : List WatchEvent}
    (hredo : events.foldlM State.replayEvent state = .ok next) :
    ∃ entities bytes, next = state.withAuthority entities bytes
      (state.events ++ events.map .exact) := by
  induction events generalizing state with
  | nil =>
    cases hredo
    refine ⟨next.entities, next.authorityBytes, ?_⟩
    simp [State.withAuthority]
  | cons event events ih =>
    rw [foldlM_cons] at hredo
    obtain ⟨middle, hst, hredo⟩ := bind_eq_ok.mp hredo
    obtain ⟨entities, bytes, rfl⟩ := ih hredo
    refine ⟨entities, bytes, ?_⟩
    obtain ⟨changed, hch, hst⟩ := bind_eq_ok.mp hst
    cases hst
    unfold State.replayChange at hch
    split at hch
    · obtain ⟨_, _, rfl⟩ := State.putAuthority_eq_ok.mp hch
      simp [State.withAuthority]
    · obtain ⟨_, _, rfl⟩ := State.deleteAuthority_eq_ok.mp hch
      simp [State.withAuthority]

omit [Codec] in
lemma State.setEpochs_frame {epochs : List (String × ℕ)}
    (hset : epochs.foldlM (fun state item => state.setEpoch item.1 item.2) state = .ok next) :
    ∃ nodeEpochs bytes, next = { state with
      nodeEpochs := nodeEpochs, authorityBytes := bytes } := by
  refine foldlM_invariant (fun current => ∃ nodeEpochs bytes, current = { state with
      nodeEpochs := nodeEpochs, authorityBytes := bytes }) ?_ hset ⟨_, _, rfl⟩
  rintro before item after _ ⟨_, _, rfl⟩ h
  obtain ⟨_, _, rfl⟩ := State.setEpoch_eq_ok.mp h
  exact ⟨_, _, rfl⟩

omit [Codec] [Footprint] in
lemma retainOutcomes_records (requests outcomes) :
    Records requests (retainOutcomes requests outcomes) (outcomes.map RequestOutcome.request) := by
  induction outcomes generalizing requests with
  | nil => exact ⟨fun _ _ => rfl, by simp⟩
  | cons outcome outcomes ih =>
    exact @Records.cons _ _ _ (.exact outcome) (ih _)

omit [Codec] in
/-- Replaying facts about the next revision keeps the derived fields exact. -/
lemma State.Exact.replayFacts {facts : DecidedFacts} (hexact : state.Exact)
    (hnext : facts.revisionAfter = facts.revisionBefore + 1)
    (hnums : ∀ event ∈ facts.events, event.revision = facts.revisionAfter)
    (huniq : (facts.outcomes.map RequestOutcome.request).Nodup)
    (hredo : state.replayFacts facts = .ok next) : next.Exact := by
  simp only [State.replayFacts, bind_eq_ok] at hredo
  obtain ⟨_, hfollows, _, _, _, _, _, _, _, _, indexed, hidx, changed, hedit, last, hlast,
    hcost⟩ := hredo
  rw [ensure_eq_ok, decide_eq_true_eq] at hfollows
  rw [hexact.ensureHistoryIndex] at hidx
  cases hidx
  rw [replayOutcomes_eq] at hlast
  have hstart : State.Charged (State.completeEvents { state with
      authorityIndexed := true, historyIndexed := true }
      facts.completedAtUnixMs facts.revisionAfter facts.events) :=
    ⟨⟨rfl, hexact.weight⟩, hexact.fits⟩
  have hmid := hstart.replayEvents hedit
  have hchg : last.Charged := by
    refine foldlM_invariant State.Charged ?_ hlast (hmid.of_same rfl rfl rfl rfl)
    intro before item after _ hpre hstep
    exact hpre.setEpoch hstep
  have hdec : Decides state { last with revision := facts.revisionAfter }
      (facts.outcomes.map RequestOutcome.request) facts.completedAtUnixMs
      (facts.events.map .exact) := by
    obtain ⟨_, _, rfl⟩ := State.replayEvents_frame hedit
    obtain ⟨_, _, rfl⟩ := State.setEpochs_frame hlast
    have hrecs := retainOutcomes_records state.requests facts.outcomes
    refine ⟨hchg.of_same rfl rfl rfl rfl, rfl, ?_, rfl, hrecs.kept, hrecs.recorded, ?_, rfl, ?_, ?_⟩
    · rw [← hfollows]
      exact hnext
    · intro key
      exact State.completeRequests_getElem? _ _ _ _
    · intro event hevent
      obtain ⟨value, hval, rfl⟩ := mem_map.mp hevent
      exact hnums value hval
    · simp [State.completeEvents, State.completeRequests, State.withAuthority]
  exact hdec.exact hexact huniq hcost

lemma State.Exact.replayDecision {record : RecordDecision}
    (hexact : state.Exact) (hcosts : record.accountable = true)
    (hredo : state.replayDecision record = .ok next) : next.Exact := by
  obtain ⟨facts, hfc, hredo⟩ := bind_eq_ok.mp hredo
  obtain ⟨hnx, hnm, hrq⟩ := RecordDecision.facts_numbered hfc
  refine hexact.replayFacts hnx hnm ?_ hredo
  rw [hrq]
  exact of_decide_eq_true hcosts

end Replay

/-! ## Retention steps -/

section Retain

variable [Footprint] {state next : State} {rows : List Retained}
variable {items : List RemovedRequest}

/-- The rows left by a retention step. -/
def remaining (items : List RemovedRequest) (rows : List Retained) : List Retained :=
  items.foldl (fun rows item => without Retained.key item.key rows) rows

lemma Tracks.removeRequests (htrail : Tracks rows index)
    (hcut : items.foldlM Index.removeRequest index = .ok last) :
    Tracks (remaining items rows) last ∧ SameEvents last index := by
  induction items generalizing rows index with
  | nil =>
    cases hcut
    exact ⟨htrail, ⟨rfl, rfl, rfl, rfl⟩⟩
  | cons item items ih =>
    rw [foldlM_cons] at hcut
    obtain ⟨middle, hmd, hcut⟩ := bind_eq_ok.mp hcut
    obtain ⟨hst, heq⟩ := htrail.removeRequest hmd
    obtain ⟨hls, hla⟩ := ih hst hcut
    exact ⟨hls, hla.trans heq⟩

omit [Footprint] in
lemma Lists.retireRequest (hlists : Lists rows state) (huniq : (rows.map Retained.key).Nodup)
    (hrefs : References (commandIds rows) state.commandHistory state.commandHistoryBytes)
    (hretire : state.retireRequest item = .ok next) :
    Lists (without Retained.key item.key rows) next ∧
      References (commandIds (without Retained.key item.key rows))
        next.commandHistory next.commandHistoryBytes := by
  obtain ⟨owned, how, hretire⟩ := bind_eq_ok.mp hretire
  obtain ⟨accounting, hcm, hretire⟩ := bind_eq_ok.mp hretire
  cases hretire
  rw [okOr_eq_ok] at how
  obtain ⟨row, hrw, hky, rfl⟩ := hlists.get.mp how
  obtain ⟨hdr, _⟩ := Accounting.command_eq_ok.mp hcm
  have hlt := hrefs.perm (commandIds_perm (perm_cons_without huniq hrw))
  rw [hky] at hlt
  refine ⟨⟨?_, ?_, ?_, ?_, ?_⟩, References.drop hlt hdr⟩
  · intro other
    have hne : compare item.key other.key ≠ .eq ↔ other.key ≠ item.key := by
      rw [Ne, Std.compare_eq_iff_eq, eq_comm]
    rw [mem_without, hlists.mem_iff]
    dsimp only [State.Retains, State.withAccounting]
    rw [getElem?_erase, getElem?_erase]
    by_cases ho : other.key = item.key
    · simp [ho]
    · rw [if_neg (hne.mpr ho), if_neg (hne.mpr ho)]
      simp [ho]
  · intro key
    dsimp only [State.withAccounting]
    rw [mem_erase, mem_erase, hlists.covers]
  · intro other ho
    exact hlists.named other (mem_without.mp ho).1
  · intro other ho
    exact hlists.valid other (mem_without.mp ho).1
  · intro other ho
    exact hlists.completed other (mem_without.mp ho).1

omit [Footprint] in
lemma Lists.retireRequests (hlists : Lists rows state) (huniq : (rows.map Retained.key).Nodup)
    (hrefs : References (commandIds rows) state.commandHistory state.commandHistoryBytes)
    (hdrop : items.foldlM State.retireRequest state = .ok next) :
    Lists (remaining items rows) next ∧
      References (commandIds (remaining items rows)) next.commandHistory
        next.commandHistoryBytes := by
  induction items generalizing rows state with
  | nil =>
    cases hdrop
    exact ⟨hlists, hrefs⟩
  | cons item items ih =>
    rw [foldlM_cons] at hdrop
    obtain ⟨middle, hmd, hdrop⟩ := bind_eq_ok.mp hdrop
    obtain ⟨hst, hsr⟩ := hlists.retireRequest huniq hrefs hmd
    exact ih hst (nodup_without huniq _) hsr hdrop

/-- Applying a retention step to an exact index removes the rows it names and
the groups up to the watermark. -/
lemma Tracks.apply (htrail : Tracks rows index) (hmap : Charts chartRows index)
    (happ : index.apply delta revision compactedTo = .ok last) :
    Tracks (remaining delta.requests rows) last ∧
      Charts (chartRows.filter fun row => decide (delta.compactedTo < row.1))
        last := by
  simp only [Index.apply, bind_eq_ok] at happ
  obtain ⟨_, _, _, _, _, _, _, _, middle, hreqs, hlog⟩ := happ
  obtain ⟨hmid, heq⟩ := htrail.removeRequests hreqs
  have hmiddleCharts := hmap.of_same heq
  have hents : ∀ row, row ∈ chartRows ↔ row ∈ middle.events.toList := by
    rintro ⟨revision, entry⟩
    rw [mem_toList_iff_getElem?_eq_some, hmiddleCharts.stores.lookup]
    constructor
    · intro hrow
      exact ⟨_, hrow, rfl, rfl⟩
    · rintro ⟨row, hrow, rfl, rfl⟩
      exact hrow
  have hsort : middle.events.toList.Pairwise (·.1 < ·.1) := by
    refine List.Pairwise.imp ?_ ordered_keys_toList
    intro left right hless
    exact Nat.compare_eq_lt.mp hless
  obtain ⟨hlastCharts, hlastSame⟩ := hmiddleCharts.removeEvents hents hsort hlog
  exact ⟨hmid.of_same hlastSame, hlastCharts⟩

lemma eventRows_filter (completion : ExtTreeMap ℕ ℕ)
    (hgt : ∀ event ∈ events, bound < eventRevision event) :
    eventRows (completion.filter fun revision _ => decide (bound < revision))
      events = eventRows completion events := by
  apply eventRows_congr
  intro event h
  rw [getElem?_filter', decide_eq_true (hgt event h)]
  cases completion[eventRevision event]? with
  | none | some _ => rfl

lemma State.Exact.applyHistory (hexact : state.Exact)
    (happly : state.applyHistory delta = .ok next) : next.Exact := by
  obtain ⟨hrv, _, hto, _⟩ := State.applyHistory_compacts hexact.events.sorted happly
  obtain ⟨indexed, retired, history, removed, happ⟩ := State.applyHistory_applied happly
  have hid := happ.ensured
  rw [hexact.ensureHistoryIndex] at hid
  cases hid
  obtain ⟨rows, hls, hac⟩ := hexact.outcomes
  obtain ⟨htr, hch⟩ := hac.tracks.apply hexact.events.charts happ.applied
  have hin : Lists rows { state with
      authorityIndexed := true, historyIndexed := true, history := history } :=
    ⟨hls.mem_iff, hls.covers, hls.named, hls.valid, hls.completed⟩
  obtain ⟨hrt, hrf⟩ := hin.retireRequests hac.tracks.stores.nodup hac.references happ.retires
  obtain ⟨cut, hcu, hct⟩ := countRemoved_cuts hexact.events.sorted happ.counted
  rw [Nat.zero_add] at hcu
  subst hcu
  obtain ⟨_, _, _, _, rfl⟩ := State.retireRequests_frame happ.retires
  rw [happ.next_eq] at hto ⊢
  rw [eventRows_cut hct] at hch
  have hrw := eventRows_filter state.eventCompletion hct.above
  refine ⟨hexact.weight, hexact.fits, fun _ => rfl, ⟨remaining delta.requests rows, ?_, htr, hrf⟩,
    ⟨⟨hto, ?_, hct.above, ?_, ?_⟩, ?_⟩⟩
  · exact ⟨hrt.mem_iff, hrt.covers, hrt.named, hrt.valid, hrt.completed⟩
  · exact hexact.events.sorted.sublist (drop_sublist _ _)
  · intro event hev
    exact hexact.events.below event (mem_of_mem_drop hev)
  · have hor := hexact.events.ordered
    rw [eventGroups_cut hct] at hor
    exact (pairwise_append.mp hor).2.1
  · dsimp only
    rw [hrw]
    exact hch

end Retain

/-! ## Runs -/

/-- What a state can be advanced by. -/
inductive Advance where
  | mutation (mutation : Mutation)
  | record (record : Record)
  | retention (delta : Delta)

def Mutation.accountable : Mutation → Bool
  | .transaction txn => txn.accountable
  | .registerNode _ _ => true

def Advance.accountable : Advance → Bool
  | .mutation queued => queued.accountable
  | .record durable => durable.accountable
  | .retention _ => true

section Runs

variable [Footprint] [Codec]

/-- Prepared mutations, replayed records and applied retention steps. -/
inductive Advances : State → Advance → State → Prop where
  | prepared {state : State} {next clock mutation completedAt byteLimit outcome record}
      (hprepare : state.prepare clock mutation completedAt byteLimit =
        .ok (next, outcome, record)) : Advances state (.mutation mutation) next
  | replayed {state : State} {next record} (hreplay : state.replayRecord record = .ok next) :
      Advances state (.record record) next
  | retained {state : State} {next delta} (happly : state.applyHistory delta = .ok next) :
      Advances state (.retention delta) next

variable {state next : State}

omit [Codec] in
lemma State.registerNodeSession_conditionFailed {now revision}
    (henrol : state.registerNodeSession now request lease =
      .ok (next, .conditionFailed revision existing)) : next = state := by
  obtain ⟨_, _, henrol⟩ := bind_eq_ok.mp henrol
  unfold State.registerValidated at henrol
  split at henrol
  · cases henrol
    rfl
  · simp only [bind_eq_ok] at henrol
    obtain ⟨_, _, _, _, _, _, _, _, ⟨_, _⟩, _, _, _, henrol⟩ := henrol
    cases henrol

lemma State.prepare_conditionFailed {clock completedAt byteLimit revision}
    (hprep : state.prepare clock mutation completedAt byteLimit =
      .ok (next, .conditionFailed revision existing, record)) :
    state.ensureHistoryIndex = .ok next := by
  cases mutation with
  | transaction txn =>
    obtain ⟨indexed, hid, hprep⟩ := bind_eq_ok.mp hprep
    obtain ⟨⟨applied, outcome⟩, hap, hprep⟩ := bind_eq_ok.mp hprep
    cases outcome with
    | committed _ _ =>
      obtain ⟨_, _, hprep⟩ := bind_eq_ok.mp hprep
      obtain ⟨_, _, hprep⟩ := bind_eq_ok.mp hprep
      cases hprep
    | conditionFailed _ _ =>
      cases hprep
      rw [(State.applyTxn_conditionFailed hap).1]
      exact hid
  | registerNode request lease =>
    obtain ⟨indexed, hid, hprep⟩ := bind_eq_ok.mp hprep
    obtain ⟨⟨applied, outcome⟩, hap, hprep⟩ := bind_eq_ok.mp hprep
    cases outcome with
    | committed _ _ =>
      obtain ⟨_, _, hprep⟩ := bind_eq_ok.mp hprep
      obtain ⟨_, _, hprep⟩ := bind_eq_ok.mp hprep
      obtain ⟨_, _, hprep⟩ := bind_eq_ok.mp hprep
      cases hprep
    | conditionFailed _ _ =>
      cases hprep
      rw [State.registerNodeSession_conditionFailed hap]
      exact hid

lemma State.Exact.prepare (hexact : state.Exact) (hcosts : mutation.accountable = true)
    (hprep : state.prepare clock mutation completedAt byteLimit =
      .ok (next, outcome, record)) : next.Exact := by
  cases outcome with
  | conditionFailed _ _ =>
    have hen := State.prepare_conditionFailed hprep
    rw [hexact.ensureHistoryIndex] at hen
    cases hen
    exact hexact.withFlags
  | committed _ _ =>
    cases mutation with
    | transaction txn =>
      obtain ⟨_, _, _, _, hpr⟩ := State.prepareTxnRecord_committed hprep
      exact hpr.exact hexact hcosts
    | registerNode request lease =>
      obtain ⟨_, _, _, _, _, hpr⟩ := State.prepareNodeRecord_committed hprep
      exact hpr.exact hexact

lemma State.Exact.replayRecord (hexact : state.Exact) (hcosts : record.accountable = true)
    (hredo : state.replayRecord record = .ok next) : next.Exact := by
  obtain ⟨_, _, hredo⟩ := bind_eq_ok.mp hredo
  rcases record with ⟨decided, _ | delta⟩ | delta
  · exact hexact.replayDecision hcosts hredo
  · obtain ⟨middle, hmd, hap⟩ := bind_eq_ok.mp hredo
    exact (hexact.replayDecision hcosts hmd).applyHistory hap
  · exact hexact.applyHistory hredo

lemma Advances.exact {step : Advance} (hexact : state.Exact)
    (hcosts : step.accountable = true) (hstep : Advances state step next) : next.Exact := by
  cases hstep with
  | prepared hpp => exact hexact.prepare hcosts hpp
  | replayed hrp => exact hexact.replayRecord hcosts hrp
  | retained hap => exact hexact.applyHistory hap

/-- Incremental indexes equal a rebuild: in every run whose decisions record at
most one outcome for each request and delete under exact keys, forgetting the
derived fields of any state reached and rebuilding them gives them back. -/
theorem incremental_indexes_rebuilt {steps : List Advance}
    (hrun : Run Advances State.default steps state)
    (hexact : ∀ step ∈ steps, step.accountable = true) :
    state.forgetIndex.rebuildHistoryIndex = .ok { state with
      authorityIndexed := true, historyIndexed := true } := by
  apply State.Exact.forgetIndex_rebuild
  induction hrun with
  | refl => exact State.Exact.default
  | snoc _ hlast ih =>
    obtain ⟨hpre, htag⟩ := forall_mem_append.mp hexact
    exact hlast.exact (ih hpre) (htag _ (mem_singleton_self _))

end Runs

/-! ## Small runs -/

section Samples

variable [Footprint] [Codec]

/-- Commits transactions one after the other on an empty store. -/
def commitAll (txns : List MetaTxn) : Result State :=
  txns.foldlM (fun state txn => do
    let (next, _, _) ← state.prepareTxnRecord (fun _ => 0) txn 1 65536
    return next) State.default

lemma commitAll_run (hdone : commitAll txns = .ok state) :
    Run Advances State.default (txns.map fun txn => .mutation (.transaction txn)) state := by
  unfold commitAll at hdone
  generalize State.default = first at hdone ⊢
  induction txns generalizing first with
  | nil =>
    cases hdone
    exact .refl _
  | cons txn txns ih =>
    rw [foldlM_cons] at hdone
    obtain ⟨next, hnx, hdone⟩ := bind_eq_ok.mp hdone
    obtain ⟨⟨_, _, _⟩, hpp, hnx⟩ := bind_eq_ok.mp hnx
    cases hnx
    exact .cons (.prepared hpp) (ih _ hdone)

/-- Some derived value of the state reached, and of its rebuild. -/
def keptAndRebuilt {A : Type} (txns : List MetaTxn) (view : State → A) : Result (A × A) := do
  let state ← commitAll txns
  let rebuilt ← state.forgetIndex.rebuildHistoryIndex
  return (view state, view rebuilt)

lemma keptAndRebuilt_eq_ok {A : Type} {txns : List MetaTxn} {view : State → A} {kept rebuilt}
    (hview : keptAndRebuilt txns view = .ok (kept, rebuilt)) : ∃ state other,
      Run Advances State.default (txns.map fun txn => .mutation (.transaction txn)) state ∧
      state.forgetIndex.rebuildHistoryIndex = .ok other ∧
      view state = kept ∧ view other = rebuilt := by
  obtain ⟨state, hst, hview⟩ := bind_eq_ok.mp hview
  obtain ⟨other, ho, hview⟩ := bind_eq_ok.mp hview
  cases hview
  exact ⟨state, other, commitAll_run hst, ho, rfl, rfl⟩

end Samples

def sampleCommand (id : String) : RootCommandRecord where
  commandId := id
  homeNodeId := "node"
  homeSessionId := "session"
  rootId := "root"
  rootEpoch := 1
  oldAccessGeneration := 1
  commandType := .revokeAccess

/-- A transaction that changes entities and records results for its request. -/
def sampleTxn (id : String) (changes : List TxnMutation)
    (results : List OperationResult) : MetaTxn where
  request := ⟨"caller", id⟩
  operation := .beginRootRevocation
  conditions := [.requestAbsent ⟨"caller", id⟩]
  mutations := changes ++ results.map fun result =>
    .recordRequestOutcome (.exact ⟨⟨"caller", id⟩, .beginRootRevocation, result⟩)

/-- Records results for one request, all referring to the same command. -/
def commandTxn (copies : ℕ) : MetaTxn :=
  sampleTxn "command" [] (List.replicate copies (.rootCommand (sampleCommand "command")))

/-- Stores two commands, then deletes one of them under a key with some spare
capacity. -/
def droppingTxns (spare : ℕ) : List MetaTxn :=
  [sampleTxn "store" [.put (.exact (.rootCommand (sampleCommand "one"))),
      .put (.exact (.rootCommand (sampleCommand "two")))] [.empty],
    sampleTxn "drop" [.delete ⟨.rootCommand "one", spare⟩] [.empty]]

/-- Two outcomes for one request are counted twice and rebuilt once, and the
spare capacity of a deleted key is taken off the authority charge. -/
theorem incremental_indexes_drift : letI := plainFootprint
    letI := plainCodec
    (∃ state rebuilt, Run Advances State.default
        ([commandTxn 2].map fun txn => .mutation (.transaction txn)) state ∧
      state.forgetIndex.rebuildHistoryIndex = .ok rebuilt ∧
      state.commandHistory["command"]? = some 2 ∧ rebuilt.commandHistory["command"]? = some 1) ∧
    ∃ state rebuilt, Run Advances State.default
        ((droppingTxns 8).map fun txn => .mutation (.transaction txn)) state ∧
      state.forgetIndex.rebuildHistoryIndex = .ok rebuilt ∧
      state.authorityBytes = 1627 ∧ rebuilt.authorityBytes = 1635 := by
  refine ⟨?_, ?_⟩
  · exact @keptAndRebuilt_eq_ok plainFootprint plainCodec _ [commandTxn 2]
      (fun state => state.commandHistory["command"]?) _ _ (by decide +kernel)
  · exact @keptAndRebuilt_eq_ok plainFootprint plainCodec _ (droppingTxns 8)
      State.authorityBytes _ _ (by decide +kernel)

/-- A run with one outcome and exact deletions. -/
theorem exact_commits_rebuilt : letI := plainFootprint
    letI := plainCodec
    ∃ state, Run Advances State.default ((commandTxn 1 :: droppingTxns 0).map
        fun txn => .mutation (.transaction txn)) state ∧
      state.forgetIndex.rebuildHistoryIndex = .ok { state with
        authorityIndexed := true, historyIndexed := true } := by
  have hview : @keptAndRebuilt plainFootprint plainCodec _
      (commandTxn 1 :: droppingTxns 0) State.authorityBytes = .ok (1635, 1635) := by decide +kernel
  obtain ⟨state, _, hrun, _⟩ := @keptAndRebuilt_eq_ok plainFootprint plainCodec _ _ _ _ _ hview
  have hexact : ∀ step ∈ (commandTxn 1 :: droppingTxns 0).map
      (fun txn => Advance.mutation (.transaction txn)), step.accountable = true := by decide +kernel
  exact ⟨state, hrun, @incremental_indexes_rebuilt plainFootprint plainCodec _ _ hrun hexact⟩

end AgentDx.Store
