import AgentDx.Store.Accounting
import AgentDx.Store.WatchStream

/-!
# Rebuilding the derived indexes

The rebuild computes the retention index, the command references and the
authority charge from the retained records.  On a state whose derived fields are
those of its own outcomes, event groups and authority it succeeds and gives the
same fields again.
-/

namespace AgentDx.Store

open Dfs Std Word Keyed RefCount OrderedMap Cut Transition Result List ExtTreeMap

/-! ## Event groups -/

section Groups

def groupRevision (group : List (Owned WatchEvent)) : ℕ := (group.head?.map eventRevision).getD 0

variable {events others : List (Owned WatchEvent)}
variable {group : List (Owned WatchEvent)} {revision bound cut : ℕ}

lemma mem_of_mem_eventGroups (hgroup : group ∈ eventGroups events) :
    group ≠ [] ∧ ∀ event ∈ group, event ∈ events := by
  refine ⟨ne_nil_of_mem_splitBy hgroup, ?_⟩
  intro event hev
  have hfl : (eventGroups events).flatten = events := flatten_splitBy _ _
  rw [← hfl]
  exact mem_flatten_of_mem hgroup hev

lemma groupRevision_mem (hgroup : group ∈ eventGroups events) :
    ∃ event ∈ events, groupRevision group = eventRevision event := by
  obtain ⟨hne, h⟩ := mem_of_mem_eventGroups hgroup
  obtain ⟨event, rest, rfl⟩ := exists_cons_of_ne_nil hne
  exact ⟨event, h event mem_cons_self, rfl⟩

lemma eventGroups_append
    (hless : ∀ left ∈ events, ∀ right ∈ others, eventRevision left < eventRevision right) :
    eventGroups (events ++ others) = eventGroups events ++ eventGroups others := by
  apply splitBy_append
  intro left hlf right hr
  have hla := mem_of_getLast? hlf
  have hfs := mem_of_head? hr
  exact decide_eq_false (hless left hla right hfs).ne

lemma eventGroups_of_revision (hne : events ≠ [])
    (heq : ∀ event ∈ events, eventRevision event = revision) : eventGroups events = [events] := by
  apply splitBy_of_isChain hne
  apply List.Pairwise.isChain
  apply List.Pairwise.imp_of_mem _ (pairwise_of_forall fun _ _ => trivial)
  intro left right hlf hr _
  exact decide_eq_true ((heq left hlf).trans (heq right hr).symm)

lemma eventGroups_cut (hcuts : Cuts eventRevision bound cut events) :
    eventGroups events = eventGroups (events.take cut) ++ eventGroups (events.drop cut) := by
  rw [← eventGroups_append, take_append_drop]
  intro left hlf right hr
  exact (hcuts.below left hlf).trans_lt (hcuts.above right hr)

variable [footprint : Footprint]

/-- What the events of one revision are charged. -/
def groupWeight (group : List (Owned WatchEvent)) : ℕ :=
  eventGroupBytes + (group.map eventWeight).sum

lemma eventsChargeFrom_eq_ok {count bytes total held} (hnum : count < Word.size)
    (hbytes : bytes < Word.size) :
    eventsChargeFrom count bytes events = .ok (total, held) ↔ total = count + events.length ∧
      held = bytes + (events.map eventWeight).sum ∧ total < Word.size ∧ held < Word.size := by
  induction events generalizing count bytes with
  | nil =>
    simp only [eventsChargeFrom, Except.ok.injEq, Prod.mk.injEq, length_nil, map_nil, sum_nil]
    omega
  | cons event events ih =>
    simp only [eventsChargeFrom, eventCharge_eq, bind_eq_ok,
      okOr_eq_ok, checkedAdd_eq_some, charge_eq_ok, length_cons, map_cons, sum_cons]
    constructor
    · rintro ⟨_, ⟨hnx, rfl⟩, _, ⟨_, rfl⟩, _, ⟨hsm, rfl⟩, hr⟩
      obtain ⟨htt, hh, hft⟩ := (ih hnx hsm).mp hr
      exact ⟨by omega, by omega, hft⟩
    · rintro ⟨htt, hh, hft, hsz⟩
      have hnx : count + 1 < Word.size := by omega
      have hsm : bytes + eventWeight event < Word.size := by omega
      refine ⟨_, ⟨hnx, rfl⟩, _, ⟨by omega, rfl⟩, _, ⟨hsm, rfl⟩, ?_⟩
      exact (ih hnx hsm).mpr ⟨by omega, by omega, hft, hsz⟩

lemma eventsCharge_eq_ok {count bytes} :
    eventsCharge events = .ok (count, bytes) ↔ count = events.length ∧
      bytes = (if events = [] then 0 else groupWeight events) ∧
      events.length < Word.size ∧ groupWeight events < Word.size := by
  have hzr : 0 < Word.size := by simp [Word.size]
  have hbs : eventGroupBytes < Word.size := by
    simp [eventGroupBytes, Word.size]
  simp only [eventsCharge, bind_eq_ok, pure_eq_ok, Prod.mk.injEq, groupWeight]
  constructor
  · rintro ⟨⟨total, held⟩, hch, rfl, rfl⟩
    obtain ⟨htt, hh, hc, hby⟩ := (eventsChargeFrom_eq_ok hzr hbs).mp hch
    rw [Nat.zero_add] at htt
    subst htt
    subst hh
    simp only [length_eq_zero_iff, true_and]
    exact ⟨hc, hby⟩
  · rintro ⟨rfl, rfl, hc, hby⟩
    refine ⟨(events.length, eventGroupBytes + (events.map eventWeight).sum), ?_, rfl, ?_⟩
    · exact (eventsChargeFrom_eq_ok hzr hbs).mpr ⟨(Nat.zero_add _).symm, rfl, hc, hby⟩
    · simp only [length_eq_zero_iff]

/-- The index row of a group. -/
def groupRow (completion : ExtTreeMap ℕ ℕ) (group : List (Owned WatchEvent)) : ℕ × EventMeta :=
  (groupRevision group, ⟨completion[groupRevision group]?, group.length, groupWeight group⟩)

/-- The index rows of the retained events. -/
def eventRows (completion : ExtTreeMap ℕ ℕ) (events : List (Owned WatchEvent)) :
    List (ℕ × EventMeta) :=
  (eventGroups events).map (groupRow completion)

lemma groupWeight_ne_zero : groupWeight group ≠ 0 := by
  rw [groupWeight, eventGroupBytes]
  omega

lemma eventRows_congr
    (heq : ∀ event ∈ events, completion[eventRevision event]? = other[eventRevision event]?) :
    eventRows completion events = eventRows other events := by
  apply map_congr_left
  intro group hgr
  obtain ⟨event, hev, hrv⟩ := groupRevision_mem hgr
  rw [groupRow, groupRow, hrv, heq event hev]

lemma eventRows_cut (hcuts : Cuts eventRevision bound cut events) :
    ((eventRows completion events).filter
        fun row => decide (bound < row.1)) = eventRows completion (events.drop cut) := by
  have hbl : ((eventRows completion (events.take cut)).filter
      fun row => decide (bound < row.1)) = [] := by
    rw [filter_eq_nil_iff]
    intro row hrw
    obtain ⟨group, hgr, rfl⟩ := mem_map.mp hrw
    obtain ⟨event, hev, hrv⟩ := groupRevision_mem hgr
    have hle := hcuts.below event hev
    simp [groupRow, hrv, hle]
  have hgt : ((eventRows completion (events.drop cut)).filter
      fun row => decide (bound < row.1)) = eventRows completion (events.drop cut) := by
    rw [filter_eq_self]
    intro row hrw
    obtain ⟨group, hgr, rfl⟩ := mem_map.mp hrw
    obtain ⟨event, hev, hrv⟩ := groupRevision_mem hgr
    have hlt := hcuts.above event hev
    simp [groupRow, hrv, hlt]
  have hro : eventRows completion events =
      eventRows completion (events.take cut) ++ eventRows completion (events.drop cut) := by
    rw [eventRows, eventGroups_cut hcuts, map_append]
    rfl
  rw [hro, filter_append, hbl, hgt, nil_append]

end Groups

/-! ## Exact states -/

section Exact

variable [Footprint]

/-- The row a state retains under its key. -/
def State.Retains (state : State) (row : Retained) : Prop :=
  state.requests[row.key]? = some row.owned ∧
    state.requestCompletion[row.key]? = some row.completion

omit [Footprint] in
lemma State.Retains.eq_of_key {state : State} (hrow : state.Retains row)
    (hother : state.Retains other) (hkey : row.key = other.key) : row = other := by
  obtain ⟨how, hcm⟩ := hrow
  rw [hkey, hother.1] at how
  rw [hkey, hother.2] at hcm
  cases row
  cases other
  simp_all

/-- The rows are the retained outcomes of the state. -/
structure Lists (rows : List Retained) (state : State) : Prop where
  mem_iff : ∀ row, row ∈ rows ↔ state.Retains row
  covers : ∀ key, key ∈ state.requests ↔ key ∈ state.requestCompletion
  named : ∀ row ∈ rows, row.owned.outcome.request = row.key
  valid : ∀ row ∈ rows, row.key.isValid = true
  completed : ∀ row ∈ rows, row.completion.revision ≠ 0 ∧ row.completion.revision ≤ state.revision

/-- The retained events are in order and above the watermark. -/
structure EventsOrdered (state : State) : Prop where
  compacted : state.compactedTo ≤ state.revision
  sorted : state.events.Pairwise (eventRevision · ≤ eventRevision ·)
  above : ∀ event ∈ state.events, state.compactedTo < eventRevision event
  below : ∀ event ∈ state.events, eventRevision event ≤ state.revision
  ordered : (eventGroups state.events).Pairwise (groupRevision · < groupRevision ·)

/-- The retained events and their index. -/
structure EventsIndexed (state : State) : Prop extends EventsOrdered state where
  charts : Charts (eventRows state.eventCompletion state.events) state.history

/-- The derived fields are those of the retained records. -/
structure State.Exact (state : State) : Prop where
  weight : state.authorityBytes = state.authorityWeight
  fits : state.authorityBytes < Word.size
  indexed : state.historyIndexed = true → state.authorityIndexed = true
  outcomes : ∃ rows, Lists rows state ∧ Accounts rows state.accounting
  events : EventsIndexed state

lemma State.Exact.default : State.default.Exact where
  weight := rfl
  fits := by simp [State.default, Word.size]
  indexed := by
    intro h
    cases h
  outcomes := by
    refine ⟨[], ⟨?_, ?_, ?_, ?_, ?_⟩, accounts_empty⟩
    · simp [State.default, State.Retains]
    · simp [State.default]
    · simp
    · simp
    · simp
  events := by
    refine ⟨⟨le_rfl, List.Pairwise.nil, ?_, ?_, List.Pairwise.nil⟩, charts_empty⟩
    · simp [State.default]
    · simp [State.default]

/-! ## The rebuild of an exact state -/

variable {state source : State} {rows done : List Retained}

omit [Footprint] in
lemma Lists.get (hlists : Lists rows state) :
    state.requests[key]? = some owned ↔ ∃ row ∈ rows, row.key = key ∧ row.owned = owned := by
  constructor
  · intro how
    have hm : key ∈ state.requestCompletion := by
      rw [← hlists.covers, mem_iff_isSome_getElem?, how]
      rfl
    obtain ⟨completion, hcm⟩ := Option.isSome_iff_exists.mp (mem_iff_isSome_getElem?.mp hm)
    exact ⟨⟨key, completion, owned⟩, (hlists.mem_iff _).mpr ⟨how, hcm⟩, rfl, rfl⟩
  · rintro ⟨row, hrw, rfl, rfl⟩
    exact ((hlists.mem_iff row).mp hrw).1

lemma Lists.rebuildRequests (hlists : Lists rows source)
    (hfits : RowsFit rows) {accounting : Accounting} {entries : List (RequestKey × OwnedOutcome)}
    (hents : ∀ entry ∈ entries, source.requests[entry.1]? = some entry.2)
    (huniq : (entries.map Prod.fst).Nodup) (hdone : ∀ row ∈ done,
      row ∈ rows ∧ row.key ∉ entries.map Prod.fst) (hacc : Accounts done accounting) :
    ∃ next last, entries.foldlM source.rebuildRequest accounting = .ok next ∧ Accounts last next ∧
      (∀ row, row ∈ last ↔ row ∈ done ∨ row ∈ rows ∧ row.key ∈ entries.map Prod.fst) ∧
      SameEvents next.index accounting.index := by
  induction entries generalizing done accounting with
  | nil =>
    refine ⟨accounting, done, rfl, hacc, ?_, ⟨rfl, rfl, rfl, rfl⟩⟩
    simp
  | cons entry entries ih =>
    obtain ⟨he, hents⟩ := forall_mem_cons.mp hents
    rw [map_cons, nodup_cons] at huniq
    obtain ⟨row, hrw, hky, how⟩ := hlists.get.mp he
    have hf : ∀ other ∈ done, other.key ≠ row.key := by
      intro other ho heq
      apply (hdone other ho).2
      rw [heq, hky]
      exact mem_cons_self
    have hno := hacc.tracks.stores.nodup.of_map
    have hnn : (row :: done).Nodup := nodup_cons.mpr ⟨fun hm => hf row hm rfl, hno⟩
    have hsb : row :: done ⊆ rows := by
      intro other ho
      rcases mem_cons.mp ho with rfl | ho
      · exact hrw
      · exact (hdone other ho).1
    obtain ⟨next, hnx, hne, hns⟩ :=
      hacc.rebuildRequest hf ((hlists.mem_iff row).mp hrw).2
        (hlists.named row hrw) (hlists.valid row hrw)
        (hlists.completed row hrw).1 (hlists.completed row hrw).2
        (hfits.mono (hnn.subperm hsb))
    have hdo : ∀ other ∈ row :: done, other ∈ rows ∧ other.key ∉ entries.map Prod.fst := by
      intro other ho
      refine ⟨hsb ho, ?_⟩
      rcases mem_cons.mp ho with rfl | ho
      · rw [hky]
        exact huniq.1
      · exact fun hm => (hdone other ho).2 (mem_cons_of_mem _ hm)
    obtain ⟨last, lastRows, hfl, hla, hm, hsm⟩ := ih hents huniq.2 hdo hne
    refine ⟨last, lastRows, ?_, hla, ?_, hsm.trans hns⟩
    · rw [foldlM_cons]
      refine bind_eq_ok.mpr ⟨next, ?_, hfl⟩
      rw [← hnx, hky, how]
    · intro other
      rw [hm, mem_cons, map_cons, mem_cons]
      constructor
      · rintro ((rfl | ho) | ⟨ho, hlt⟩)
        · exact .inr ⟨hrw, .inl hky⟩
        · exact .inl ho
        · exact .inr ⟨ho, .inr hlt⟩
      · rintro (ho | ⟨ho, hlt | hlt⟩)
        · exact .inl (.inr ho)
        · exact .inl (.inl (State.Retains.eq_of_key
            ((hlists.mem_iff _).mp ho) ((hlists.mem_iff _).mp hrw)
            (hlt.trans hky.symm)))
        · exact .inr ⟨ho, hlt⟩

lemma rebuildGroups {groups : List (List (Owned WatchEvent))} {chartRows previous index}
    (hnonempty : ∀ group ∈ groups, group ≠ [])
    (hord : groups.Pairwise (groupRevision · < groupRevision ·))
    (hgt : ∀ group ∈ groups, previous < groupRevision group)
    (hbelow : ∀ group ∈ groups, groupRevision group ≤ source.revision)
    (hnew : ∀ row ∈ chartRows, row.1 ≤ previous)
    (hfits : ChartsFit (groups.map (groupRow source.eventCompletion) ++ chartRows))
    (hmap : Charts chartRows index) :
    ∃ last next, groups.foldlM source.rebuildEvents (previous, index) = .ok (last, next) ∧
      Charts ((groups.map (groupRow source.eventCompletion)).reverse ++
        chartRows) next ∧ SameRequests next index := by
  induction groups generalizing previous index chartRows with
  | nil => exact ⟨previous, index, rfl, hmap, ⟨rfl, rfl, rfl⟩⟩
  | cons group groups ih =>
    obtain ⟨hgr, hnonempty⟩ := forall_mem_cons.mp hnonempty
    obtain ⟨hfs, hord⟩ := pairwise_cons.mp hord
    obtain ⟨ha, _⟩ := forall_mem_cons.mp hgt
    obtain ⟨hwi, hbelow⟩ := forall_mem_cons.mp hbelow
    let row := groupRow source.eventCompletion group
    have hrf : ChartsFit (row :: chartRows) :=
      hfits.mono ((sublist_append_right _ _).cons_cons row).subperm
    have hln : group.length < Word.size := Nat.lt_of_le_of_lt (Nat.le_add_right _ _) hrf.counts
    have hwt : groupWeight group < Word.size := Nat.lt_of_le_of_lt (Nat.le_add_right _ _) hrf.bytes
    have hch : eventsCharge group = .ok (group.length, groupWeight group) := by
      rw [eventsCharge_eq_ok, if_neg hgr]
      exact ⟨rfl, rfl, hln, hwt⟩
    obtain ⟨tracked, htr⟩ := hmap.trackEvents_ok
      (fun other ho => ((hnew other ho).trans_lt ha).ne)
      (Nat.ne_of_gt (Nat.zero_lt_of_lt ha))
      (mt length_eq_zero_iff.mp hgr) groupWeight_ne_zero hrf
    obtain ⟨hnx, heq⟩ := hmap.trackEvents htr
    have hst : source.rebuildEvents (previous, index) group =
        .ok (groupRevision group, tracked) := by
      obtain ⟨event, rest, rfl⟩ := exists_cons_of_ne_nil hgr
      simp only [State.rebuildEvents, bind_eq_ok, ensure_eq_ok, decide_eq_true_eq, pure_eq_ok]
      exact ⟨(), ⟨ha, hwi⟩, _, hch, _, htr, rfl⟩
    have hfr : ∀ other ∈ row :: chartRows, other.1 ≤ groupRevision group := by
      refine forall_mem_cons.mpr ⟨le_rfl, ?_⟩
      intro other ho
      exact (hnew other ho).trans ha.le
    obtain ⟨last, next, hfl, hls, hla⟩ :=
      ih hnonempty hord hfs hbelow hfr (hfits.mono perm_middle.subperm) hnx
    refine ⟨last, next, ?_, ?_, hla.trans heq⟩
    · rw [foldlM_cons]
      exact bind_eq_ok.mpr ⟨_, hst, hfl⟩
    · simpa using hls

omit [Footprint] in
lemma State.eq_of_persisted (hpers : source.persisted = state.persisted)
    (htip : source.logTip = state.logTip) : source = { state with
      history := source.history
      historyIndexed := source.historyIndexed
      commandHistory := source.commandHistory
      commandHistoryBytes := source.commandHistoryBytes
      authorityBytes := source.authorityBytes
      authorityIndexed := source.authorityIndexed } := by
  cases source
  cases state
  simp only [State.persisted, Persisted.mk.injEq] at hpers
  simp_all

/-- Rebuilding from the records of an exact state gives its derived fields. -/
lemma State.Exact.rebuild (hexact : state.Exact) (hpers : source.persisted = state.persisted)
    (htip : source.logTip = state.logTip)
    (hauthority : source.ensureAuthorityIndex = .ok { source with
      authorityBytes := state.authorityBytes, authorityIndexed := true }) :
    source.rebuildHistoryIndex = .ok { state with
      authorityIndexed := true, historyIndexed := true } := by
  obtain ⟨rows, hls, hac⟩ := hexact.outcomes
  obtain ⟨⟨_, _, hgt, hbl, hor⟩, hch⟩ := hexact.events
  let indexed : State := { state with
    history := source.history
    historyIndexed := source.historyIndexed
    commandHistory := source.commandHistory
    commandHistoryBytes := source.commandHistoryBytes
    authorityIndexed := true }
  have hid : source.ensureAuthorityIndex = .ok indexed := by
    rw [hauthority, State.eq_of_persisted hpers htip]
  have hlt : Lists rows indexed := ⟨hls.mem_iff, hls.covers, hls.named, hls.valid, hls.completed⟩
  have hen : ∀ entry ∈ indexed.requests.toList,
      indexed.requests[entry.1]? = some entry.2 := fun entry he =>
    mem_toList_iff_getElem?_eq_some.mp he
  have hnd : (indexed.requests.toList.map Prod.fst).Nodup := by
    rw [map_fst_toList_eq_keys]
    exact nodup_keys
  obtain ⟨outcomes, last, hot, hla, hm, hes⟩ :=
    hlt.rebuildRequests hac.fit hen hnd (forall_mem_nil _) accounts_empty
  have heq : ∀ row, row ∈ last ↔ row ∈ rows := by
    intro row
    rw [hm, ExtTreeMap.map_fst_toList_eq_keys, ExtTreeMap.mem_keys]
    constructor
    · rintro (hrw | ⟨hrw, _⟩)
      · cases hrw
      · exact hrw
    · intro hrw
      refine .inr ⟨hrw, ?_⟩
      rw [mem_iff_isSome_getElem?, ((hlt.mem_iff row).mp hrw).1]
      rfl
  have hft := hch.fit
  rw [← append_nil (eventRows _ _)] at hft
  obtain ⟨final, index, hgo, hcn, hrq⟩ :=
    @rebuildGroups _ indexed (eventGroups state.events) [] state.compactedTo
      outcomes.index
      (fun group hgr => (mem_of_mem_eventGroups hgr).1) hor
      (by
        intro group hgr
        obtain ⟨event, hev, hrv⟩ := groupRevision_mem hgr
        rw [hrv]
        exact hgt event hev)
      (by
        intro group hgr
        obtain ⟨event, hev, hrv⟩ := groupRevision_mem hgr
        rw [hrv]
        exact hbl event hev)
      (forall_mem_nil _) hft (charts_empty.of_same hes)
  obtain ⟨hro, hcm, hby⟩ := hla.unique hac heq
  have hix : index = state.history := by
    refine SameRequests.eq (hrq.trans hro) ?_
    refine hcn.unique hch ?_
    intro row
    rw [append_nil, mem_reverse]
    rfl
  have hsz : indexed.requestCompletion.size = indexed.requests.size :=
    size_eq_of_mem_iff fun key => (hlt.covers key).symm
  rw [State.rebuildHistoryIndex, bind_eq_ok]
  refine ⟨indexed, hid, ?_⟩
  refine bind_eq_ok.mpr ⟨(), by simpa using hsz, ?_⟩
  refine bind_eq_ok.mpr ⟨outcomes, hot, ?_⟩
  refine bind_eq_ok.mpr ⟨(final, index), hgo, ?_⟩
  rw [pure_eq_ok, hix, State.withAccounting, hcm, hby]
  rfl

lemma State.Exact.ensureHistoryIndex (hexact : state.Exact) :
    state.ensureHistoryIndex = .ok { state with
      authorityIndexed := true, historyIndexed := true } := by
  unfold State.ensureHistoryIndex
  cases hid : state.historyIndexed with
  | true =>
    have hat := hexact.indexed hid
    rw [if_pos rfl, ← hid]
    nth_rewrite 2 [hid]
    rw [← hat]
  | false =>
    rw [if_neg Bool.false_ne_true]
    refine hexact.rebuild rfl rfl ?_
    unfold State.ensureAuthorityIndex
    cases hat : state.authorityIndexed with
    | true => rw [if_pos rfl, ← hat]
    | false =>
      rw [if_neg Bool.false_ne_true, bind_eq_ok]
      refine ⟨state.authorityBytes, ?_, rfl⟩
      exact State.authorityTotal_eq_ok.mpr ⟨hexact.weight, hexact.fits⟩

/-- The records of a state without anything derived from them. -/
def State.forgetIndex (state : State) : State :=
  { state with
    history := .empty
    historyIndexed := false
    commandHistory := ∅
    commandHistoryBytes := 0
    authorityBytes := 0
    authorityIndexed := false }

lemma State.Exact.forgetIndex_rebuild (hexact : state.Exact) :
    state.forgetIndex.rebuildHistoryIndex = .ok { state with
      authorityIndexed := true, historyIndexed := true } := by
  refine hexact.rebuild rfl rfl ?_
  have h : state.forgetIndex.authorityTotal = .ok state.authorityBytes :=
    State.authorityTotal_eq_ok.mpr ⟨hexact.weight, hexact.fits⟩
  rw [State.ensureAuthorityIndex, if_neg (by simp [State.forgetIndex]), bind_eq_ok]
  exact ⟨_, h, rfl⟩

end Exact

end AgentDx.Store
