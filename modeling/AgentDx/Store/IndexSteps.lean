import AgentDx.Store.IndexRebuild

/-!
# Commits adjust the derived indexes

A committed decision records outcomes and adds the events of one revision, and
its changes are accounted once.  If it records at most one outcome for each
request and its deletions are charged as what they remove, the derived fields of
the next state are again those of its records.
-/

namespace AgentDx.Store

open List hiding keys
open Dfs Std Word Keyed RefCount OrderedMap Cut Transition Result

/-! ## The authority charge -/

variable {key : MetaKey} {epoch : ℕ}

section Charged

variable [Footprint]

/-- The authority charge is indexed, exact and fits. -/
structure State.Charged (state : State) : Prop where
  exact : state.AuthorityExact
  fits : state.authorityBytes < Word.size

variable {state next : State}

lemma State.Charged.putAuthority (hsum : state.Charged)
    (hput : state.putAuthority key value = .ok next) : next.Charged := by
  refine ⟨hsum.exact.putAuthority hput, ?_⟩
  obtain ⟨bytes, hby, rfl⟩ := State.putAuthority_eq_ok.mp hput
  obtain ⟨_, _, hft, rfl⟩ := hsum.exact.putBytes_eq_ok.mp hby
  exact hft

lemma State.Charged.deleteAuthority (hsum : state.Charged)
    (hdelete : state.deleteAuthority (.exact key) = .ok next) : next.Charged := by
  refine ⟨hsum.exact.deleteAuthority hdelete, ?_⟩
  obtain ⟨bytes, hby, rfl⟩ := State.deleteAuthority_eq_ok.mp hdelete
  obtain ⟨_, rfl⟩ := hsum.exact.deleteBytes_eq_ok.mp hby
  have her := total_erase entityWeight state.entities key
  have hwt := hsum.exact.bytes_eq
  have hft := hsum.fits
  rw [State.authorityWeight] at hwt
  dsimp only
  omega

lemma State.Charged.setEpoch (hsum : state.Charged) (hset : state.setEpoch node epoch = .ok next) :
    next.Charged := by
  refine ⟨hsum.exact.setEpoch hset, ?_⟩
  obtain ⟨bytes, hby, rfl⟩ := State.setEpoch_eq_ok.mp hset
  obtain ⟨hcs, rfl⟩ := (hsum.exact.epochBytes_eq_ok epoch).mp hby
  rcases hcs with hcn | ⟨_, hft⟩
  · have hin := total_epochWeight_insert state.nodeEpochs node epoch
    have hwt := hsum.exact.bytes_eq
    have hft := hsum.fits
    rw [hcn, if_pos rfl, Nat.add_zero] at hin
    rw [State.authorityWeight] at hwt
    dsimp only
    omega
  · exact hft

lemma State.Charged.of_same (hsum : state.Charged)
    (hents : next.entities = state.entities) (hepochs : next.nodeEpochs = state.nodeEpochs)
    (hbytes : next.authorityBytes = state.authorityBytes)
    (hidx : next.authorityIndexed = state.authorityIndexed) : next.Charged := by
  refine ⟨⟨hidx.trans hsum.exact.indexed, ?_⟩, hbytes ▸ hsum.fits⟩
  rw [hbytes, hsum.exact.bytes_eq, State.authorityWeight, State.authorityWeight, hents, hepochs]

end Charged

/-! ## Accounting a decision -/

section Decide

variable [Footprint]

/-- What a decision did to a state before its changes were accounted: it
recorded outcomes under `keys` and added the events `fresh`. -/
structure Decides (state changed : State) (keys : List RequestKey)
    (completedAt : ℕ) (fresh : List (Owned WatchEvent)) : Prop where
  charged : changed.Charged
  accounting : changed.accounting = state.accounting
  revision : changed.revision = state.revision + 1
  compactedTo : changed.compactedTo = state.compactedTo
  kept : ∀ key, key ∉ keys → changed.requests[key]? = state.requests[key]?
  recorded : ∀ key ∈ keys, ∃ owned, changed.requests[key]? = some owned ∧
    owned.outcome.request = key
  completion : ∀ key, changed.requestCompletion[key]? =
    if key ∈ keys then some ⟨completedAt, changed.revision⟩
    else state.requestCompletion[key]?
  events : changed.events = state.events ++ fresh
  numbered : ∀ event ∈ fresh, eventRevision event = changed.revision
  eventCompletion : changed.eventCompletion = if fresh = [] then state.eventCompletion
    else state.eventCompletion.insert changed.revision completedAt

variable {state changed next : State} {keys : List RequestKey}
variable {completedAt : ℕ} {fresh : List (Owned WatchEvent)}

lemma Accounts.accountRequests (hacc : Accounts rows accounting) (huniq : keys.Nodup)
    (hprev : ∀ key ∈ keys, ∀ owned, state.requests[key]? = some owned ↔
      ∃ row ∈ rows, row.key = key ∧ row.owned = owned)
    (hcost : keys.foldlM (changed.accountRequest state) accounting = .ok accounted) :
    ∃ last, Accounts last accounted ∧ SameEvents accounted.index accounting.index ∧
      (∀ row, row ∈ last ↔ if row.key ∈ keys then changed.Retains row else row ∈ rows) ∧
      ∀ row ∈ last, row.key ∈ keys → row.key.isValid = true ∧ row.completion.revision ≠ 0 := by
  induction keys generalizing rows accounting with
  | nil =>
    cases hcost
    exact ⟨rows, hacc, ⟨rfl, rfl, rfl, rfl⟩, by simp, by simp⟩
  | cons key keys ih =>
    obtain ⟨hky, hke⟩ := nodup_cons.mp huniq
    obtain ⟨hfs, hos⟩ := forall_mem_cons.mp hprev
    rw [foldlM_cons] at hcost
    obtain ⟨middle, hmd, hfl⟩ := bind_eq_ok.mp hcost
    obtain ⟨added, rfl, how, hcm, hv, hrv, had, hsm⟩ := hacc.accountRequest hfs hmd
    have hrt : changed.Retains added := ⟨how, hcm⟩
    have hr : ∀ key ∈ keys, ∀ owned, state.requests[key]? = some owned ↔
        ∃ row ∈ added :: without Retained.key added.key rows,
          row.key = key ∧ row.owned = owned := by
      intro other ho owned
      have hne : other ≠ added.key := fun heq => hky (heq ▸ ho)
      rw [hos other ho owned]
      constructor
      · rintro ⟨row, hrw, rfl, rfl⟩
        exact ⟨row, mem_cons_of_mem _ (mem_without.mpr ⟨hrw, hne⟩), rfl, rfl⟩
      · rintro ⟨row, hrw, rfl, rfl⟩
        rcases mem_cons.mp hrw with rfl | hrw
        · exact absurd rfl hne
        · exact ⟨row, (mem_without.mp hrw).1, rfl, rfl⟩
    obtain ⟨last, hla, hlaS, hm, hlv⟩ := ih had hke hr hfl
    refine ⟨last, hla, hlaS.trans hsm, ?_, ?_⟩
    · intro row
      rw [hm, mem_cons, mem_without]
      by_cases hrw : row.key = added.key
      · have hnt : row.key ∉ keys := hrw ▸ hky
        rw [if_neg hnt, if_pos (mem_cons.mpr (.inl hrw))]
        constructor
        · rintro (rfl | ⟨_, hne⟩)
          · exact hrt
          · exact absurd hrw hne
        · intro hon
          exact .inl (hon.eq_of_key hrt hrw)
      · have hne : row ≠ added := fun heq => hrw (congrArg _ heq)
        simp only [mem_cons, hrw, hne, false_or, Ne, not_false_eq_true, and_true]
    · intro row hrw hls
      rcases mem_cons.mp hls with heq | hls
      · have hnt : row.key ∉ keys := heq ▸ hky
        rw [hm, if_neg hnt] at hrw
        rcases mem_cons.mp hrw with rfl | hrw
        · exact ⟨hv, hrv⟩
        · exact absurd heq (mem_without.mp hrw).2
      · exact hlv row hrw hls

variable (hdec : Decides state changed keys completedAt fresh)

include hdec

lemma Decides.lists (hlists : Lists rows state)
    (hmem : ∀ row, row ∈ last ↔ if row.key ∈ keys then changed.Retains row else row ∈ rows)
    (hok : ∀ row ∈ last, row.key ∈ keys → row.key.isValid = true ∧ row.completion.revision ≠ 0) :
    Lists last changed := by
  have hol : ∀ row ∈ last, row.key ∉ keys → row ∈ rows := by
    intro row hrw hky
    rwa [hmem, if_neg hky] at hrw
  have hrt : ∀ row, row ∈ last ↔ changed.Retains row := by
    intro row
    rw [hmem]
    by_cases hky : row.key ∈ keys
    · rw [if_pos hky]
    · rw [if_neg hky, hlists.mem_iff, State.Retains, State.Retains, hdec.kept _ hky,
        hdec.completion, if_neg hky]
  refine ⟨hrt, ?_, ?_, ?_, ?_⟩
  · intro key
    rw [ExtTreeMap.mem_iff_isSome_getElem?, ExtTreeMap.mem_iff_isSome_getElem?, hdec.completion]
    by_cases hky : key ∈ keys
    · obtain ⟨owned, how, _⟩ := hdec.recorded key hky
      rw [if_pos hky, how]
      exact iff_of_true rfl rfl
    · rw [if_neg hky, hdec.kept key hky, ← ExtTreeMap.mem_iff_isSome_getElem?,
        ← ExtTreeMap.mem_iff_isSome_getElem?, hlists.covers]
  · intro row hrw
    by_cases hky : row.key ∈ keys
    · obtain ⟨owned, how, hrq⟩ := hdec.recorded _ hky
      rw [((hrt row).mp hrw).1] at how
      cases how
      exact hrq
    · exact hlists.named row (hol row hrw hky)
  · intro row hrw
    by_cases hky : row.key ∈ keys
    · exact (hok row hrw hky).1
    · exact hlists.valid row (hol row hrw hky)
  · intro row hrw
    by_cases hky : row.key ∈ keys
    · refine ⟨(hok row hrw hky).2, ?_⟩
      have hcm := ((hrt row).mp hrw).2
      rw [hdec.completion, if_pos hky] at hcm
      rw [← Option.some.inj hcm]
    · obtain ⟨hnn, hbd⟩ := hlists.completed row (hol row hrw hky)
      refine ⟨hnn, hbd.trans ?_⟩
      rw [hdec.revision]
      exact Nat.le_succ _

lemma Decides.eventGroups_eq (hlog : EventsOrdered state) :
    eventGroups changed.events = eventGroups state.events ++
      if fresh = [] then [] else [fresh] := by
  rw [hdec.events, eventGroups_append]
  · by_cases hf : fresh = []
    · rw [if_pos hf, hf]
      rfl
    · rw [if_neg hf, eventGroups_of_revision hf hdec.numbered]
  · intro left hlf right hr
    have hle := hlog.below left hlf
    have hnm := hdec.numbered right hr
    rw [hdec.revision] at hnm
    omega

lemma Decides.groupRevision_fresh (hnew : fresh ≠ []) : groupRevision fresh = changed.revision := by
  obtain ⟨event, rest, rfl⟩ := exists_cons_of_ne_nil hnew
  exact hdec.numbered event mem_cons_self

lemma Decides.eventRows_eq (hlog : EventsOrdered state) :
    eventRows changed.eventCompletion changed.events =
      eventRows state.eventCompletion state.events ++ if fresh = [] then []
        else [(changed.revision, ⟨some completedAt, fresh.length, groupWeight fresh⟩)] := by
  have heq : eventRows changed.eventCompletion state.events =
      eventRows state.eventCompletion state.events := by
    apply eventRows_congr
    intro event hev
    have hle := hlog.below event hev
    have hrv := hdec.revision
    rw [hdec.eventCompletion]
    split
    · rfl
    · have hne : compare changed.revision (eventRevision event) ≠ .eq := by
        rw [Ne, Std.compare_eq_iff_eq]
        omega
      rw [ExtTreeMap.getElem?_insert, if_neg hne]
  rw [← heq, eventRows, hdec.eventGroups_eq hlog, map_append]
  by_cases hf : fresh = []
  · rw [if_pos hf, if_pos hf]
    rfl
  · rw [if_neg hf, if_neg hf, map_singleton, groupRow,
      hdec.groupRevision_fresh hf, hdec.eventCompletion, if_neg hf, ExtTreeMap.getElem?_insert_self]
    rfl

lemma Decides.eventsOrdered (hlog : EventsOrdered state) : EventsOrdered changed := by
  have hrv := hdec.revision
  have hcm := hlog.compacted
  refine ⟨?_, ?_, ?_, ?_, ?_⟩
  · rw [hdec.compactedTo]
    omega
  · rw [hdec.events, pairwise_append]
    refine ⟨hlog.sorted, ?_, ?_⟩
    · apply List.Pairwise.imp_of_mem _ (pairwise_of_forall fun _ _ => trivial)
      intro left right hlf hr _
      rw [hdec.numbered left hlf, hdec.numbered right hr]
    · intro left hlf right hr
      have hle := hlog.below left hlf
      rw [hdec.numbered right hr]
      omega
  · rw [hdec.events, hdec.compactedTo]
    refine forall_mem_append.mpr ⟨hlog.above, ?_⟩
    intro event hev
    rw [hdec.numbered event hev]
    omega
  · rw [hdec.events]
    refine forall_mem_append.mpr ⟨?_, ?_⟩
    · intro event hev
      have hle := hlog.below event hev
      omega
    · intro event hev
      exact (hdec.numbered event hev).le
  · rw [hdec.eventGroups_eq hlog]
    by_cases hf : fresh = []
    · rw [if_pos hf, append_nil]
      exact hlog.ordered
    · rw [if_neg hf, pairwise_append]
      refine ⟨hlog.ordered, pairwise_singleton _ _, ?_⟩
      intro group hgr other ho
      obtain ⟨event, hev, heq⟩ := groupRevision_mem hgr
      have hle := hlog.below event hev
      rw [mem_singleton.mp ho, hdec.groupRevision_fresh hf]
      omega

lemma Decides.charts (hlog : EventsOrdered state)
    (hmap : Charts (eventRows state.eventCompletion state.events) index)
    (hcost : changed.accountEvents index state.events.length completedAt = .ok indexed) :
    Charts (eventRows changed.eventCompletion changed.events) indexed ∧
      SameRequests indexed index := by
  rw [hdec.eventRows_eq hlog]
  obtain ⟨⟨count, bytes⟩, hch, hcost⟩ := bind_eq_ok.mp hcost
  rw [hdec.events, drop_left, eventsCharge_eq_ok] at hch
  obtain ⟨rfl, rfl, _, _⟩ := hch
  by_cases hf : fresh = []
  · subst hf
    dsimp only at hcost
    rw [length_nil, if_neg (Nat.lt_irrefl 0)] at hcost
    cases hcost
    rw [if_pos rfl, append_nil]
    exact ⟨hmap, ⟨rfl, rfl, rfl⟩⟩
  · have hps : 0 < fresh.length := length_pos_iff.mpr hf
    dsimp only at hcost
    rw [if_pos hps, if_neg hf] at hcost
    rw [if_neg hf]
    let row : ℕ × EventMeta := (changed.revision,
      ⟨some completedAt, fresh.length, groupWeight fresh⟩)
    have htr : index.trackEvents row.1 row.2.completedAt row.2.count
        row.2.heldBytes = .ok indexed := hcost
    obtain ⟨hnx, heq⟩ := hmap.trackEvents htr
    exact ⟨hnx.perm (perm_append_singleton _ _).symm, heq⟩

lemma Decides.exact (hexact : state.Exact) (huniq : keys.Nodup)
    (hcost : changed.accountHistoryChanges state keys state.events.length
      completedAt = .ok next) : next.Exact := by
  obtain ⟨accounted, hot, hcost⟩ := bind_eq_ok.mp hcost
  obtain ⟨_, _, hcost⟩ := bind_eq_ok.mp hcost
  obtain ⟨indexed, hev, hnx⟩ := bind_eq_ok.mp hcost
  cases hnx
  obtain ⟨rows, hls, hacc⟩ := hexact.outcomes
  rw [← hdec.accounting] at hacc
  obtain ⟨last, hla, hsa, hm, hv⟩ := hacc.accountRequests huniq (fun _ _ _ => hls.get) hot
  have hll := hdec.lists hls hm hv
  have hix : changed.accounting.index = state.history := by
    rw [hdec.accounting]
    rfl
  rw [hix] at hsa
  obtain ⟨hch, hsr⟩ := hdec.charts
    hexact.events.toEventsOrdered
    (hexact.events.charts.of_same hsa) hev
  have hor := hdec.eventsOrdered hexact.events.toEventsOrdered
  refine ⟨hdec.charged.exact.bytes_eq, hdec.charged.fits,
    fun _ => hdec.charged.exact.indexed, ⟨last, ?_, ?_⟩, ⟨?_, hch⟩⟩
  · exact ⟨hll.mem_iff, hll.covers, hll.named, hll.valid, hll.completed⟩
  · exact ⟨hla.tracks.of_same hsr, hla.references⟩
  · exact ⟨hor.compacted, hor.sorted, hor.above, hor.below, hor.ordered⟩

end Decide

/-! ## Committed decisions -/

section Commit

variable [Footprint]

/-- A deletion under a key without spare capacity. -/
def TxnMutation.deletesExact : TxnMutation → Bool
  | .delete key => decide (key.spare = 0)
  | _ => true

/-- The transaction records at most one outcome for each request, and its
deletions are charged as what they remove. -/
def MetaTxn.accountable (txn : MetaTxn) : Bool :=
  decide (txn.outcomes.map RequestOutcome.request).Nodup &&
    txn.mutations.all TxnMutation.deletesExact

variable {state next : State}

variable {revision : ℕ} {mutations : List TxnMutation} {before after : State × ℕ}

lemma State.Charged.applyMutations (hsum : before.1.Charged)
    (hexact : mutations.all TxnMutation.deletesExact = true)
    (happ : mutations.foldlM (State.applyMutation revision) before =
      .ok after) : after.1.Charged := by
  refine foldlM_invariant (fun current : State × ℕ => current.1.Charged) ?_ happ hsum
  rintro ⟨middle, index⟩ mutation ⟨next, last⟩ hmt hmd hst
  have hdl := all_eq_true.mp hexact mutation hmt
  rcases State.applyMutation_cases hst with
    ⟨entity, bytes, rfl, hby, rfl, _⟩ |
    ⟨⟨key, spare⟩, bytes, rfl, hby, rfl, _⟩ | ⟨_, _, rfl, _⟩
  · have hpt : middle.putAuthority (entityKey entity.value) ⟨revision, entity.value⟩ = .ok _ :=
      State.putAuthority_eq_ok.mpr ⟨bytes, hby, rfl⟩
    exact (hmd.putAuthority hpt).of_same rfl rfl rfl rfl
  · obtain rfl : spare = 0 := of_decide_eq_true hdl
    have hde : middle.deleteAuthority (.exact key) = .ok _ :=
      State.deleteAuthority_eq_ok.mpr ⟨bytes, hby, rfl⟩
    exact (hmd.deleteAuthority hde).of_same rfl rfl rfl rfl
  · exact hmd.of_same rfl rfl rfl rfl

/-- Mutations leave everything but the authority, events and outcomes alone. -/
lemma State.applyMutations_frame
    (happ : mutations.foldlM (State.applyMutation revision) before = .ok after) :
    ∃ entities bytes events requests, after.1 = { before.1 with
      entities := entities, authorityBytes := bytes
      events := events, requests := requests } := by
  refine foldlM_invariant (fun current : State × ℕ =>
    ∃ entities bytes events requests, current.1 = { before.1 with
      entities := entities, authorityBytes := bytes
      events := events, requests := requests }) ?_ happ ⟨_, _, _, _, rfl⟩
  rintro ⟨middle, index⟩ mutation ⟨next, last⟩ _ ⟨_, _, _, _, hmd⟩ hst
  dsimp only at hmd
  subst hmd
  rcases State.applyMutation_cases hst with
    ⟨_, _, _, _, rfl, _⟩ | ⟨_, _, _, _, rfl, _⟩ | ⟨_, _, rfl, _⟩
  · exact ⟨_, _, _, _, rfl⟩
  · exact ⟨_, _, _, _, rfl⟩
  · exact ⟨_, _, _, _, rfl⟩

/-- The outcomes retained after mutations: the recorded ones under their own
keys, the earlier ones under the others. -/
structure Records (before after : ExtTreeMap RequestKey OwnedOutcome)
    (keys : List RequestKey) : Prop where
  kept : ∀ key, key ∉ keys → after[key]? = before[key]?
  recorded : ∀ key ∈ keys, ∃ owned, after[key]? = some owned ∧ owned.outcome.request = key

omit [Footprint] in
lemma Records.cons {before : ExtTreeMap RequestKey OwnedOutcome} {after keys}
    {owned : OwnedOutcome}
    (hrecs : Records (before.insert owned.outcome.request owned) after keys) :
    Records before after (owned.outcome.request :: keys) := by
  refine ⟨?_, ?_⟩
  · intro key hke
    obtain ⟨hne, hky⟩ := not_or.mp (mt mem_cons.mpr hke)
    rw [hrecs.kept key hky, ExtTreeMap.getElem?_insert, if_neg]
    rw [Std.compare_eq_iff_eq]
    exact Ne.symm hne
  · intro key hke
    by_cases hky : key ∈ keys
    · exact hrecs.recorded key hky
    · obtain rfl : key = owned.outcome.request := (mem_cons.mp hke).resolve_right hky
      refine ⟨owned, ?_, rfl⟩
      rw [hrecs.kept _ hky, ExtTreeMap.getElem?_insert_self]

lemma State.applyMutations_records
    (happ : mutations.foldlM (State.applyMutation revision) before = .ok after) :
    Records before.1.requests after.1.requests
      ((mutations.filterMap TxnMutation.outcome?).map RequestOutcome.request) := by
  induction mutations generalizing before with
  | nil =>
    cases happ
    exact ⟨fun _ _ => rfl, by simp⟩
  | cons mutation mutations ih =>
    rw [foldlM_cons] at happ
    obtain ⟨middle, hst, happ⟩ := bind_eq_ok.mp happ
    have hr := ih happ
    rcases State.applyMutation_cases hst with
      ⟨_, _, rfl, _, hmd, _⟩ | ⟨_, _, rfl, _, hmd, _⟩ |
      ⟨owned, rfl, hmd, _⟩
    · rw [hmd] at hr
      exact hr
    · rw [hmd] at hr
      exact hr
    · rw [hmd] at hr
      exact Records.cons hr

omit [Footprint] in
lemma State.completeRequests_getElem? (completedAt revision keys key) :
    (state.completeRequests completedAt revision keys).requestCompletion[key]? =
      if key ∈ keys then some ⟨completedAt, revision⟩
      else state.requestCompletion[key]? :=
  getElem?_insert_all _ _ _ _

lemma State.Exact.charged (hexact : state.Exact) : State.Charged { state with
      authorityIndexed := true, historyIndexed := flag, revision := revision } :=
  ⟨⟨rfl, hexact.weight⟩, hexact.fits⟩

lemma State.Exact.withFlags (hexact : state.Exact) : State.Exact { state with
      authorityIndexed := true, historyIndexed := true } where
  weight := hexact.weight
  fits := hexact.fits
  indexed := fun _ => rfl
  outcomes := by
    obtain ⟨rows, hls, hac⟩ := hexact.outcomes
    exact ⟨rows, ⟨hls.mem_iff, hls.covers, hls.named, hls.valid, hls.completed⟩, hac⟩
  events := by
    obtain ⟨⟨hcm, hsr, hgt, hbl, hor⟩, hch⟩ := hexact.events
    exact ⟨⟨hcm, hsr, hgt, hbl, hor⟩, hch⟩

variable {applied prepared : State} {completedAt : ℕ}

lemma Decides.of_publication (hsum : applied.Charged)
    (haccounting : applied.accounting = state.accounting)
    (hrecs : Records state.requests applied.requests keys)
    (hcomp : applied.requestCompletion = state.requestCompletion)
    (heventCompletion : applied.eventCompletion = state.eventCompletion)
    (hrev : applied.revision = revision)
    (hcosts : State.accountHistoryChanges
      ((applied.completeRequests completedAt revision keys).completeEvents
        completedAt revision (applied.eventsSince state.events.length)) state
        keys state.events.length completedAt = .ok prepared)
          (hpublication : Publication state prepared) :
    Decides state
      ((applied.completeRequests completedAt revision keys).completeEvents
        completedAt revision (applied.eventsSince state.events.length))
      keys completedAt (applied.events.drop state.events.length) := by
  obtain ⟨accounting, rfl⟩ := State.accountHistoryChanges_frame hcosts
  obtain ⟨hrt, had, hto, hnm, _⟩ := hpublication
  subst hrev
  refine ⟨hsum.of_same rfl rfl rfl rfl, haccounting, had, hto, hrecs.kept, hrecs.recorded, ?_, ?_,
    ?_, ?_⟩
  · intro key
    rw [← hcomp]
    exact State.completeRequests_getElem? _ _ _ _
  · exact (prefix_iff_eq_append.mp hrt).symm
  · intro event hev
    exact hnm event.value (mem_map_of_mem hev)
  · have hem : (applied.eventsSince state.events.length).isEmpty =
        decide (applied.events.drop state.events.length = []) := by
      rw [State.eventsSince, isEmpty_map]
      exact Bool.eq_iff_iff.mpr (by simp)
    rw [← heventCompletion]
    simp only [State.completeEvents, hem, decide_eq_true_eq]
    rfl

variable [Codec]

variable {reply : RequestOutcome}

lemma PreparedTxn.exact (hexact : state.Exact) (hcosts : txn.accountable = true)
    (hpre : PreparedTxn state clock txn completedAt byteLimit prepared revision reply record indexed
        applied) : prepared.Exact := by
  rw [MetaTxn.accountable, Bool.and_eq_true, decide_eq_true_eq] at hcosts
  obtain ⟨hnd, hdl⟩ := hcosts
  have hid := hpre.ensured
  rw [hexact.ensureHistoryIndex] at hid
  cases hid
  obtain ⟨_, _, _, _, _, _, hfl⟩ := State.applyTxn_committed hpre.committed
  have hch : applied.Charged := State.Charged.applyMutations hexact.charged hdl hfl
  have hrc : Records state.requests applied.requests (txn.outcomes.map RequestOutcome.request) :=
    State.applyMutations_records hfl
  obtain ⟨_, _, _, _, hfr⟩ := State.applyMutations_frame hfl
  dsimp only at hfr
  have hao : applied.accounting = state.accounting := by
    rw [hfr]
    rfl
  have hdec := Decides.of_publication hch hao hrc
    (by rw [hfr]) (by rw [hfr]) (by rw [hfr]) hpre.accounted
    hpre.publication
  exact hdec.exact hexact hnd hpre.accounted

variable {lease : NodeSessionLease} {now : ℕ}

omit [Codec] in
lemma State.Charged.decideEpoch (hsum : state.Charged)
    (hdecide : state.decideEpoch lease now = .ok (next, epoch)) : next.Charged := by
  unfold State.decideEpoch at hdecide
  split at hdecide
  · cases hdecide
    exact hsum
  · obtain ⟨advanced, h, hdecide⟩ := bind_eq_ok.mp hdecide
    cases hdecide
    exact hsum.setEpoch h

omit [Codec] in
lemma State.Charged.putSession (hsum : state.Charged)
    (hput : State.putSession revision session state key = .ok next) : next.Charged := by
  obtain ⟨bytes, _, hby, _, rfl⟩ := State.putSession_eq_ok.mp hput
  have hst : state.putAuthority key ⟨revision, .nodeSession session⟩ =
      .ok _ := State.putAuthority_eq_ok.mpr ⟨bytes, hby, rfl⟩
  exact (hsum.putAuthority hst).of_same rfl rfl rfl rfl

omit [Codec] in
/-- A registration leaves the derived indexes and the completion times alone
until it is accounted. -/
lemma Registered.frame
    (hreg : Registered state now request lease applied revision reply decided first second epoch) :
    applied.accounting = state.accounting ∧ applied.requestCompletion = state.requestCompletion ∧
      applied.eventCompletion = state.eventCompletion ∧ applied.revision = revision := by
  obtain ⟨_, _, rfl⟩ := State.decideEpoch_frame hreg.decides
  obtain ⟨_, _, _, _, rfl⟩ := State.putSession_eq_ok.mp hreg.putsFirst
  obtain ⟨_, _, _, _, rfl⟩ := State.putSession_eq_ok.mp hreg.putsSecond
  rw [hreg.applied_eq]
  exact ⟨rfl, rfl, rfl, rfl⟩

lemma PreparedNode.exact (hexact : state.Exact)
    (hpre : PreparedNode state now request lease completedAt byteLimit prepared revision reply
      record indexed applied epochs) :
    prepared.Exact := by
  have hid := hpre.ensured
  rw [hexact.ensureHistoryIndex] at hid
  cases hid
  obtain ⟨decided, first, second, epoch, hrg⟩ := State.registerNodeSession_committed hpre.committed
  have hdc : decided.Charged := State.Charged.decideEpoch hexact.charged hrg.decides
  have hfs : first.Charged := by
    have hin : State.Charged { decided with
        historyIndexed := false, revision := revision } :=
      hdc.of_same rfl rfl rfl rfl
    exact hin.putSession hrg.putsFirst
  have hsn := hfs.putSession hrg.putsSecond
  have hch : applied.Charged := by
    rw [hrg.applied_eq]
    exact hsn.of_same rfl rfl rfl rfl
  have hrq : reply.request = request := by
    rw [hrg.reply_eq]
  have hrc : Records state.requests applied.requests [reply.request] := by
    rw [hrg.requests_eq, ← hrq]
    have hem : Records (state.requests.insert reply.request (.exact reply))
        (state.requests.insert reply.request (.exact reply)) [] :=
      ⟨fun _ _ => rfl, by simp⟩
    exact @Records.cons _ _ [] (.exact reply) hem
  have hfr : applied.accounting = state.accounting ∧
      applied.requestCompletion = state.requestCompletion ∧
      applied.eventCompletion = state.eventCompletion ∧ applied.revision = revision := hrg.frame
  obtain ⟨hac, hcm, hev, hrv⟩ := hfr
  have hdec := Decides.of_publication hch hac hrc
    hcm hev hrv hpre.accounted
    hpre.publication
  exact hdec.exact hexact (nodup_singleton _) hpre.accounted

end Commit

end AgentDx.Store
