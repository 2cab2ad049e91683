import AgentDx.Lib.Keyed
import AgentDx.Lib.RefCount
import AgentDx.Store.Apply

/-!
# What the derived indexes stand for

The retention index and the command references are determined by the retained
outcomes and the event groups, given as rows under distinct keys.  Each operation
on an index changes the rows as it says, and it succeeds whenever the charges of
the new rows fit.
-/

namespace AgentDx.Store

open Dfs Std Word Keyed RefCount Result List Option Accounting

/-! ## Command references -/

section References

/-- What one referenced command is charged. -/
def commandWeight (id : String) : ℕ := id.utf8ByteSize + 256

def commandsWeight (ids : List String) : ℕ := ∑ id ∈ ids.toFinset, commandWeight id

/-- The references to commands fit their counters. -/
structure ReferencesFit (ids : List String) : Prop where
  bytes : commandsWeight ids < Word.size
  counts : ∀ id, ids.count id < Word.size

/-- The reference counts and their charge are those of the listed commands. -/
structure References (ids : List String) (commands : ExtTreeMap String ℕ)
    (bytes : ℕ) : Prop where
  counts : Counts commands ids
  bytes_eq : bytes = commandsWeight ids
  fits : ReferencesFit ids

variable {ids others : List String} {commands next : ExtTreeMap String ℕ}
variable {bytes total : ℕ} {id : String} {result : OperationResult}

lemma commandsWeight_cons : commandsWeight (id :: ids) =
      (if id ∈ ids then 0 else commandWeight id) + commandsWeight ids := by
  rw [commandsWeight, commandsWeight, toFinset_cons]
  by_cases hid : id ∈ ids
  · rw [if_pos hid, Finset.insert_eq_of_mem (mem_toFinset.mpr hid), Nat.zero_add]
  · rw [if_neg hid, Finset.sum_insert (mt List.mem_toFinset.mp hid)]

lemma commandsWeight_mono (hsubset : ids ⊆ others) :
    commandsWeight ids ≤ commandsWeight others := by
  apply Finset.sum_le_sum_of_subset
  intro id hid
  exact mem_toFinset.mpr (hsubset (mem_toFinset.mp hid))

lemma ReferencesFit.mono (hfits : ReferencesFit others)
    (hsubperm : ids.Subperm others) : ReferencesFit ids where
  bytes := (commandsWeight_mono hsubperm.subset).trans_lt hfits.bytes
  counts id := (hsubperm.count_le id).trans_lt (hfits.counts id)

lemma referencesFit_nil : ReferencesFit [] :=
  ⟨by simp [commandsWeight, Word.size], by simp [Word.size]⟩

lemma references_empty : References [] ∅ 0 := ⟨counts_empty, rfl, referencesFit_nil⟩

variable (hrefs : References ids commands bytes)

include hrefs

lemma References.perm (hperm : ids.Perm others) : References others commands bytes where
  counts := hrefs.counts.perm hperm
  bytes_eq := by
    rw [hrefs.bytes_eq, commandsWeight, commandsWeight, toFinset_eq_of_perm _ _ hperm]
  fits := hrefs.fits.mono hperm.symm.subperm

lemma References.count_eq : commands[id]?.getD 0 = ids.count id := by
  rw [hrefs.counts id]
  split
  next h =>
    rw [h, getD_none]
  · rw [getD_some]

lemma References.add_iff (hid : commandResultId result = some id) :
    accountCommandResult commands bytes result true = .ok (next, total) ↔
      commandWeight id < Word.size ∧ ids.count id + 1 < Word.size ∧
      commandsWeight (id :: ids) < Word.size ∧
      next = retain commands id ∧ total = commandsWeight (id :: ids) := by
  have hby := hrefs.bytes_eq
  have hft := hrefs.fits.bytes
  rw [commandsWeight_cons]
  simp only [accountCommandResult, hid, hrefs.count_eq, bind_eq_ok,
    okOr_eq_ok, checkedAdd_eq_some, if_true, count_eq_zero,
    pure_eq_ok, Prod.mk.injEq, RefCount.retain]
  by_cases hm : id ∈ ids
  · simp only [hm, not_true_eq_false, if_false, if_true, Except.ok.injEq, commandWeight]
    constructor
    · rintro ⟨_, ⟨hh, rfl⟩, _, ⟨hc, rfl⟩, _, rfl, rfl, rfl⟩
      exact ⟨hh, hc, by omega, rfl, by omega⟩
    · rintro ⟨hh, hc, _, hnx, htt⟩
      refine ⟨_, ⟨hh, rfl⟩, _, ⟨hc, rfl⟩, bytes, rfl, hnx.symm, ?_⟩
      omega
  · simp only [hm, not_false_eq_true, if_true, if_false, okOr_eq_ok,
      checkedAdd_eq_some, commandWeight]
    constructor
    · rintro ⟨_, ⟨hh, rfl⟩, _, ⟨hc, rfl⟩, _, ⟨hsm, rfl⟩, rfl, rfl⟩
      exact ⟨hh, hc, by omega, rfl, by omega⟩
    · rintro ⟨hh, hc, hsm, hnx, htt⟩
      refine ⟨_, ⟨hh, rfl⟩, _, ⟨hc, rfl⟩, bytes + (id.utf8ByteSize + 256), ⟨?_, rfl⟩, hnx.symm, ?_⟩
      · rwa [hby, Nat.add_comm]
      · rw [hby, htt, Nat.add_comm]

lemma References.add (hadd : accountCommandResult commands bytes result true = .ok (next, total)) :
    References ((commandResultId result).toList ++ ids) next total := by
  cases hid : commandResultId result with
  | none =>
    rw [accountCommandResult, hid] at hadd
    cases hadd
    exact hrefs
  | some id =>
    obtain ⟨_, hc, hsm, rfl, rfl⟩ := (hrefs.add_iff hid).mp hadd
    refine ⟨hrefs.counts.retain id, rfl, hsm, ?_⟩
    intro other
    have ho := hrefs.fits.counts other
    by_cases heq : id = other
    · subst heq
      simpa using hc
    · simpa [count_cons_of_ne heq] using ho

lemma References.add_ok (hfits : ReferencesFit ((commandResultId result).toList ++ ids)) :
    ∃ next total, accountCommandResult commands bytes result true = .ok (next, total) := by
  cases hid : commandResultId result with
  | none => exact ⟨commands, bytes, by rw [accountCommandResult, hid]⟩
  | some id =>
    rw [hid] at hfits
    have hc := hfits.counts id
    rw [toList_some, singleton_append, count_cons_self] at hc
    have hwt : commandWeight id ≤ commandsWeight (id :: ids) := by
      apply Finset.single_le_sum (fun _ _ => Nat.zero_le _)
      simp
    exact ⟨_, _, (hrefs.add_iff hid).mpr ⟨hwt.trans_lt hfits.bytes, hc, hfits.bytes, rfl, rfl⟩⟩

omit hrefs

lemma References.drop (hrefs : References ((commandResultId result).toList ++ ids) commands bytes)
    (hdrop : accountCommandResult commands bytes result false =
      .ok (next, total)) : References ids next total := by
  cases hid : commandResultId result with
  | none =>
    rw [hid] at hrefs
    rw [accountCommandResult, hid] at hdrop
    cases hdrop
    exact hrefs
  | some id =>
    rw [hid, toList_some, singleton_append] at hrefs
    have hwt : commandsWeight (id :: ids) = _ := commandsWeight_cons
    have hby := hrefs.bytes_eq
    have hft := hrefs.fits.mono (sublist_cons_self id ids).subperm
    have hc : commands[id]? = some (ids.count id + 1) := by
      rw [hrefs.counts id, count_cons_self, if_neg (Nat.succ_ne_zero _)]
    have hcs := hrefs.counts.release (mem_cons_self)
    rw [erase_cons_head, RefCount.release, hc] at hcs
    simp only [accountCommandResult, hid, hc, getD_some,
      Bool.false_eq_true, if_false, Nat.add_eq_right, count_eq_zero,
      Nat.add_sub_cancel, bind_eq_ok, okOr_eq_ok, checkedAdd_eq_some]
      at hdrop hcs
    obtain ⟨_, ⟨_, rfl⟩, hdrop⟩ := hdrop
    by_cases hm : id ∈ ids
    · have hps := count_pos_iff.mpr hm
      simp only [hm, not_true_eq_false, if_false, Nat.lt_add_left_iff_pos,
        hps, if_true, pure_eq_ok, Prod.mk.injEq] at hdrop hcs
      rw [if_pos hm] at hwt
      obtain ⟨rfl, rfl⟩ := hdrop
      exact ⟨hcs, by omega, hft⟩
    · simp only [hm, not_false_eq_true, if_true, bind_eq_ok, okOr_eq_ok, checkedSub_eq_some,
        pure_eq_ok,
        Prod.mk.injEq] at hdrop hcs
      obtain ⟨_, ⟨_, rfl⟩, rfl, rfl⟩ := hdrop
      rw [if_neg hm, commandWeight] at hwt
      exact ⟨hcs, by omega, hft⟩

end References

/-! ## The two parts of an index -/

/-- Two indexes over the same events. -/
structure SameEvents (left right : Index) : Prop where
  events : left.events = right.events
  eventExpiry : left.eventExpiry = right.eventExpiry
  eventCount : left.eventCount = right.eventCount
  eventBytes : left.eventBytes = right.eventBytes

/-- Two indexes over the same outcomes. -/
structure SameRequests (left right : Index) : Prop where
  requests : left.requests = right.requests
  requestOrder : left.requestOrder = right.requestOrder
  requestBytes : left.requestBytes = right.requestBytes

lemma SameEvents.trans (hone : SameEvents first second) (htwo : SameEvents second third) :
    SameEvents first third :=
  ⟨hone.events.trans htwo.events, hone.eventExpiry.trans htwo.eventExpiry,
    hone.eventCount.trans htwo.eventCount, hone.eventBytes.trans htwo.eventBytes⟩

lemma SameRequests.trans (hone : SameRequests first second) (htwo : SameRequests second third) :
    SameRequests first third :=
  ⟨hone.requests.trans htwo.requests, hone.requestOrder.trans htwo.requestOrder,
    hone.requestBytes.trans htwo.requestBytes⟩

lemma SameRequests.eq (hreqs : SameRequests left right)
    (hlog : SameEvents left right) : left = right := by
  obtain ⟨hfs, hsn, hth⟩ := hreqs
  obtain ⟨hfo, hff, hsx, hsv⟩ := hlog
  cases left
  cases right
  simp_all

/-! ## Retained outcomes -/

/-- A retained outcome with its key and completion. -/
structure Retained where
  key : RequestKey
  completion : RequestCompletion
  owned : OwnedOutcome

def Retained.order (row : Retained) : Option RequestOrderKey :=
  some ⟨row.completion.completedAtUnixMs, row.key⟩

def Retained.command? (row : Retained) : Option String := commandResultId row.owned.outcome.result

/-- The commands the outcomes refer to, once for each reference. -/
def commandIds (rows : List Retained) : List String := rows.flatMap fun row => row.command?.toList

lemma commandIds_perm (hperm : rows.Perm others) : (commandIds rows).Perm (commandIds others) :=
  hperm.flatMap_right _

section Outcomes

variable [footprint : Footprint]

/-- What a retained outcome is charged. -/
def outcomeWeight (owned : OwnedOutcome) : ℕ :=
  footprint.sizeRequestOutcome + requestHeap owned.outcome.request +
    footprint.resultHeap owned.outcome.result + owned.spare + requestEntryBytes +
    4 * (footprint.sizeRequestKey + requestHeap owned.outcome.request + owned.keySpare)

lemma requestCharge_eq (owned) : requestCharge owned = charge (outcomeWeight owned) := rfl

lemma outcomeWeight_ne_zero (owned) : outcomeWeight owned ≠ 0 := by
  rw [outcomeWeight, requestEntryBytes]
  omega

def Retained.weight (row : Retained) : ℕ := outcomeWeight row.owned

def Retained.charge (row : Retained) : RequestMeta := ⟨row.completion, row.weight⟩

/-- The request part of the index is that of the rows. -/
structure Tracks (rows : List Retained) (index : Index) : Prop where
  stores : Stores Retained.key Retained.charge rows index.requests
  sorts : Sorts Retained.order rows index.requestOrder
  bytes_eq : index.requestBytes = (rows.map Retained.weight).sum
  fits : index.requestBytes < Word.size

variable {rows others : List Retained} {index next : Index} {row : Retained}

lemma Tracks.of_same (htrail : Tracks rows index)
    (heq : SameRequests next index) : Tracks rows next where
  stores := heq.requests ▸ htrail.stores
  sorts := heq.requestOrder ▸ htrail.sorts
  bytes_eq := heq.requestBytes.trans htrail.bytes_eq
  fits := heq.requestBytes ▸ htrail.fits

lemma tracks_empty : Tracks [] Index.empty :=
  ⟨stores_empty, sorts_empty, rfl, by simp [Index.empty, Word.size]⟩

omit footprint in
lemma Retained.order_key {left right : Retained}
    (hleft : left.order = some item) (hright : right.order = some item) : left.key = right.key := by
  have h := Option.some.inj (hleft.trans hright.symm)
  exact congrArg RequestOrderKey.key h

variable (htrail : Tracks rows index)

include htrail

lemma Tracks.erase_order (hrow : row ∈ rows) :
    Sorts Retained.order (without Retained.key row.key rows)
      (index.requestOrder.erase ⟨row.completion.completedAtUnixMs, row.key⟩) :=
  htrail.sorts.erase htrail.stores.nodup hrow rfl (fun _ _ h => Retained.order_key h rfl)

lemma Tracks.trackRequest
    (htrack : index.trackRequest row.key row.completion row.weight = .ok next) :
    Tracks (row :: without Retained.key row.key rows) next ∧
      row.key.isValid = true ∧ row.completion.revision ≠ 0 ∧ SameEvents next index := by
  simp only [Index.trackRequest, bind_eq_ok, ensure_eq_ok,
    Bool.and_eq_true, decide_eq_true_eq, okOr_eq_ok, checkedReplace_eq_some, pure_eq_ok] at htrack
  obtain ⟨_, ⟨⟨hv, hrv⟩, _⟩, _, ⟨_, hft, rfl⟩, rfl⟩ := htrack
  have hst := htrail.stores.insert row
  have hby := htrail.bytes_eq
  refine ⟨?_, hv, hrv, ⟨rfl, rfl, rfl, rfl⟩⟩
  cases hol : index.requests[row.key]? with
  | none =>
    have hwt := without_eq_self (htrail.stores.get_none hol)
    rw [hwt] at hst
    rw [hol, elim_none] at hft
    rw [hwt]
    refine ⟨hst, htrail.sorts.insert rfl, ?_, hft⟩
    rw [map_cons, sum_cons, ← hby]
    dsimp only [elim_none]
    omega
  | some old =>
    obtain ⟨previous, hpr, hky, rfl⟩ := (htrail.stores.lookup _ _).mp hol
    have hsm := sum_without Retained.weight htrail.stores.nodup hpr
    have hsr := htrail.erase_order hpr
    rw [hky] at hsm hsr
    rw [hol, elim_some] at hft
    refine ⟨hst, hsr.insert rfl, ?_, hft⟩
    rw [map_cons, sum_cons]
    dsimp only [elim_some, Retained.charge]
    omega

lemma Tracks.trackRequest_ok (hnew : ∀ other ∈ rows, other.key ≠ row.key)
    (hok : row.key.isValid = true) (hrev : row.completion.revision ≠ 0)
    (hfits : ((row :: rows).map Retained.weight).sum < Word.size) :
    ∃ next, index.trackRequest row.key row.completion row.weight = .ok next := by
  have hnn : index.requests[row.key]? = none := by
    rw [eq_none_iff_forall_ne_some]
    intro found hfn
    obtain ⟨other, ho, hky, _⟩ := (htrail.stores.lookup _ _).mp hfn
    exact hnew other ho hky
  rw [map_cons, sum_cons, ← htrail.bytes_eq] at hfits
  simp only [Index.trackRequest, bind_eq_ok, ensure_eq_ok,
    Bool.and_eq_true, decide_eq_true_eq, okOr_eq_ok, checkedReplace_eq_some,
    pure_eq_ok, hnn, elim_none]
  exact ⟨_, (), ⟨⟨hok, hrev⟩, outcomeWeight_ne_zero _⟩, _, ⟨Nat.zero_le _, by omega, rfl⟩, rfl⟩

lemma Tracks.removeRequest (hcut : index.removeRequest item = .ok next) :
    Tracks (without Retained.key item.key rows) next ∧ SameEvents next index := by
  simp only [Index.removeRequest, bind_eq_ok, okOr_eq_ok, checkedSub_eq_some, pure_eq_ok] at hcut
  obtain ⟨old, hol, _, ⟨_, rfl⟩, rfl⟩ := hcut
  obtain ⟨previous, hpr, hky, rfl⟩ := (htrail.stores.lookup _ _).mp hol
  have hsm := sum_without Retained.weight htrail.stores.nodup hpr
  have hsr := htrail.erase_order hpr
  have hby := htrail.bytes_eq
  have hft := htrail.fits
  rw [hky] at hsm hsr
  refine ⟨⟨htrail.stores.erase _, hsr, ?_, ?_⟩, ⟨rfl, rfl, rfl, rfl⟩⟩
  · dsimp only [Retained.charge]
    omega
  · dsimp only
    omega

end Outcomes

/-! ## Both indexes over outcomes -/

section Accounts

variable [Footprint]

/-- The derived indexes over outcomes are those of the rows. -/
structure Accounts (rows : List Retained) (accounting : Accounting) : Prop where
  tracks : Tracks rows accounting.index
  references : References (commandIds rows) accounting.commands accounting.commandBytes

variable {rows others : List Retained} {accounting next : Accounting}
variable {row : Retained} {key : RequestKey} {previous : State}

lemma accounts_empty : Accounts [] Accounting.empty := ⟨tracks_empty, references_empty⟩

/-- Rows whose charges fit their counters. -/
structure RowsFit (rows : List Retained) : Prop where
  bytes : (rows.map Retained.weight).sum < Word.size
  references : ReferencesFit (commandIds rows)

lemma Accounts.fit (hacc : Accounts rows accounting) : RowsFit rows :=
  ⟨hacc.tracks.bytes_eq ▸ hacc.tracks.fits, hacc.references.fits⟩

lemma RowsFit.mono (hfits : RowsFit others) (hsub : rows.Subperm others) : RowsFit rows := by
  refine ⟨(sum_le_of_subperm _ hsub).trans_lt hfits.bytes, hfits.references.mono ?_⟩
  obtain ⟨listed, hpr, hsu⟩ := hsub
  exact (commandIds_perm hpr).symm.subperm.trans (hsu.flatMap _).subperm

omit [Footprint] in
lemma Accounting.command_eq_ok : accounting.command result add = .ok next ↔
      accountCommandResult accounting.commands accounting.commandBytes result
        add = .ok (next.commands, next.commandBytes) ∧ next.index = accounting.index := by
  simp only [Accounting.command, bind_eq_ok, pure_eq_ok]
  constructor
  · rintro ⟨⟨commands, bytes⟩, hcm, rfl⟩
    exact ⟨hcm, rfl⟩
  · rintro ⟨hcm, hix⟩
    exact ⟨_, hcm, by rw [← hix]⟩

lemma Accounting.request_eq_ok : accounting.request row.key row.completion row.owned = .ok next ↔
      row.weight < Word.size ∧ ∃ index,
        accounting.index.trackRequest row.key row.completion row.weight =
          .ok index ∧ next = { accounting with index := index } := by
  simp only [Accounting.request, requestCharge_eq, bind_eq_ok,
    charge_eq_ok, pure_eq_ok, @eq_comm _ next]
  constructor
  · rintro ⟨_, ⟨hft, rfl⟩, hta⟩
    exact ⟨hft, hta⟩
  · rintro ⟨hft, hta⟩
    exact ⟨_, ⟨hft, rfl⟩, hta⟩

variable (hacc : Accounts rows accounting)

include hacc

lemma Accounts.dropPrevious (hprev : ∀ owned, previous.requests[key]? = some owned ↔
      ∃ row ∈ rows, row.key = key ∧ row.owned = owned)
    (hdrop : accounting.dropPrevious previous key = .ok next) : next.index = accounting.index ∧
      References (commandIds (without Retained.key key rows)) next.commands
        next.commandBytes := by
  unfold Accounting.dropPrevious at hdrop
  cases hol : previous.requests[key]? with
  | none =>
    rw [hol] at hdrop
    cases hdrop
    refine ⟨rfl, ?_⟩
    rw [without_eq_self]
    · exact hacc.references
    · rintro row hrw rfl
      have hsm := (hprev row.owned).mpr ⟨row, hrw, rfl, rfl⟩
      rw [hol] at hsm
      cases hsm
  | some old =>
    obtain ⟨row, hrw, rfl, rfl⟩ := (hprev old).mp hol
    rw [hol] at hdrop
    obtain ⟨hcm, hix⟩ := command_eq_ok.mp hdrop
    refine ⟨hix, ?_⟩
    have hpe := perm_cons_without hacc.tracks.stores.nodup hrw
    have hrefs := hacc.references.perm (commandIds_perm hpe)
    exact References.drop hrefs hcm

lemma Accounts.accountRequest {state : State}
    (hprev : ∀ owned, previous.requests[key]? = some owned ↔
      ∃ row ∈ rows, row.key = key ∧ row.owned = owned)
    (hcost : state.accountRequest previous accounting key = .ok next) :
    ∃ row, row.key = key ∧ state.requests[key]? = some row.owned ∧
      state.requestCompletion[key]? = some row.completion ∧
      row.key.isValid = true ∧ row.completion.revision ≠ 0 ∧
      Accounts (row :: without Retained.key key rows) next ∧
      SameEvents next.index accounting.index := by
  simp only [State.accountRequest, bind_eq_ok, okOr_eq_ok] at hcost
  obtain ⟨owned, how, completion, hcm, dropped, hdr, added, had, hta⟩ := hcost
  let row : Retained := ⟨key, completion, owned⟩
  obtain ⟨heq, hrefs⟩ := hacc.dropPrevious hprev hdr
  obtain ⟨hcd, hix⟩ := command_eq_ok.mp had
  have hta : added.request row.key row.completion row.owned = .ok next := hta
  obtain ⟨_, index, htc, rfl⟩ := request_eq_ok.mp hta
  rw [hix, heq] at htc
  obtain ⟨htrail, hv, hrv, hfr⟩ := hacc.tracks.trackRequest htc
  exact ⟨row, rfl, how, hcm, hv, hrv, ⟨htrail, hrefs.add hcd⟩, hfr⟩

lemma Accounts.rebuildRequest {source : State} (hnew : ∀ other ∈ rows, other.key ≠ row.key)
    (hcomp : source.requestCompletion[row.key]? = some row.completion)
    (hkey : row.owned.outcome.request = row.key)
    (hok : row.key.isValid = true) (hrev : row.completion.revision ≠ 0)
    (hbound : row.completion.revision ≤ source.revision) (hfits : RowsFit (row :: rows)) :
    ∃ next, source.rebuildRequest accounting (row.key, row.owned) = .ok next ∧
      Accounts (row :: rows) next ∧ SameEvents next.index accounting.index := by
  obtain ⟨commands, bytes, hcm⟩ := hacc.references.add_ok hfits.references
  let added : Accounting := ⟨accounting.index, commands, bytes⟩
  have had : accounting.command row.owned.outcome.result true = .ok added :=
    command_eq_ok.mpr ⟨hcm, rfl⟩
  obtain ⟨index, hta⟩ := hacc.tracks.trackRequest_ok hnew hok hrev hfits.bytes
  have hwt : row.weight < Word.size := by
    have hby := hfits.bytes
    rw [map_cons, sum_cons] at hby
    omega
  have htc : added.request row.key row.completion row.owned = .ok ⟨index, commands, bytes⟩ :=
    request_eq_ok.mpr ⟨hwt, index, hta, rfl⟩
  obtain ⟨htrail, _, _, hfr⟩ := hacc.tracks.trackRequest hta
  rw [without_eq_self hnew] at htrail
  refine ⟨⟨index, commands, bytes⟩, ?_, ⟨htrail, hacc.references.add hcm⟩, hfr⟩
  simp only [State.rebuildRequest, bind_eq_ok, okOr_eq_ok, ensure_eq_ok, decide_eq_true_eq]
  exact ⟨_, hcomp, (), ⟨hkey.symm, hrev, hbound⟩, _, had, htc⟩

lemma Accounts.unique (hother : Accounts others other) (heq : ∀ row, row ∈ rows ↔ row ∈ others) :
    SameRequests accounting.index other.index ∧ accounting.commands = other.commands ∧
      accounting.commandBytes = other.commandBytes := by
  have hnd := hacc.tracks.stores.nodup
  have hos := hother.tracks.stores.nodup
  have hpr := (perm_ext_iff_of_nodup hnd.of_map hos.of_map).mpr heq
  have hrefs := hacc.references.perm (commandIds_perm hpr)
  refine ⟨⟨hacc.tracks.stores.unique hother.tracks.stores heq,
    hacc.tracks.sorts.unique hother.tracks.sorts heq, ?_⟩, ?_, ?_⟩
  · rw [hacc.tracks.bytes_eq, hother.tracks.bytes_eq, sum_unique _ hnd hos heq]
  · apply ExtTreeMap.ext_getElem?
    intro id
    rw [hrefs.counts id, hother.references.counts id]
  · rw [hrefs.bytes_eq, hother.references.bytes_eq]

end Accounts

/-! ## Event groups -/

section Charts

/-- The order in which the events of a revision expire. -/
def eventOrder (row : ℕ × EventMeta) : Option EventOrderKey :=
  row.2.completedAt.map fun time => ⟨time, row.1⟩

/-- The event part of the index is that of the rows. -/
structure Charts (rows : List (ℕ × EventMeta)) (index : Index) : Prop where
  stores : Stores Prod.fst Prod.snd rows index.events
  sorts : Sorts eventOrder rows index.eventExpiry
  count_eq : index.eventCount = (rows.map fun row => row.2.count).sum
  bytes_eq : index.eventBytes = (rows.map fun row => row.2.heldBytes).sum
  count_fits : index.eventCount < Word.size
  bytes_fits : index.eventBytes < Word.size

/-- Rows whose counts and charges fit their counters. -/
structure ChartsFit (rows : List (ℕ × EventMeta)) : Prop where
  counts : (rows.map fun row => row.2.count).sum < Word.size
  bytes : (rows.map fun row => row.2.heldBytes).sum < Word.size

variable {rows others : List (ℕ × EventMeta)} {index next : Index}
variable {row : ℕ × EventMeta}

lemma ChartsFit.mono (hfits : ChartsFit others) (hsub : rows.Subperm others) : ChartsFit rows where
  counts := (sum_le_of_subperm _ hsub).trans_lt hfits.counts
  bytes := (sum_le_of_subperm _ hsub).trans_lt hfits.bytes

lemma Charts.fit (hmap : Charts rows index) : ChartsFit rows :=
  ⟨hmap.count_eq ▸ hmap.count_fits, hmap.bytes_eq ▸ hmap.bytes_fits⟩

lemma charts_empty : Charts [] Index.empty where
  stores := stores_empty
  sorts := sorts_empty
  count_eq := rfl
  bytes_eq := rfl
  count_fits := by simp [Index.empty, Word.size]
  bytes_fits := by simp [Index.empty, Word.size]

variable (hmap : Charts rows index)

include hmap

lemma Charts.of_same (heq : SameEvents next index) : Charts rows next where
  stores := heq.events ▸ hmap.stores
  sorts := heq.eventExpiry ▸ hmap.sorts
  count_eq := heq.eventCount.trans hmap.count_eq
  bytes_eq := heq.eventBytes.trans hmap.bytes_eq
  count_fits := heq.eventCount ▸ hmap.count_fits
  bytes_fits := heq.eventBytes ▸ hmap.bytes_fits

lemma Charts.perm (hperm : rows.Perm others) : Charts others index where
  stores := hmap.stores.perm hperm
  sorts := hmap.sorts.perm hperm
  count_eq := by rw [hmap.count_eq, (hperm.map _).sum_eq]
  bytes_eq := by rw [hmap.bytes_eq, (hperm.map _).sum_eq]
  count_fits := hmap.count_fits
  bytes_fits := hmap.bytes_fits

omit hmap in
lemma eventOrder_fst (hleft : eventOrder left = some item)
    (hright : eventOrder right = some item) : left.1 = right.1 := by
  obtain ⟨_, _, rfl⟩ := map_eq_some_iff.mp hleft
  obtain ⟨_, _, h⟩ := map_eq_some_iff.mp hright
  exact (congrArg EventOrderKey.revision h).symm

lemma Charts.trackEvents
    (htrack : index.trackEvents row.1 row.2.completedAt row.2.count row.2.heldBytes = .ok next) :
    Charts (row :: rows) next ∧ SameRequests next index := by
  simp only [Index.trackEvents, bind_eq_ok, ensure_eq_ok,
    Bool.and_eq_true, Bool.not_eq_true', okOr_eq_ok, checkedAdd_eq_some, pure_eq_ok] at htrack
  obtain ⟨_, ⟨_, hab⟩, _, ⟨hc, rfl⟩, _, ⟨hby, rfl⟩, rfl⟩ := htrack
  have hnn : index.events[row.1]? = none := by
    rw [← ExtTreeMap.isSome_getElem?_eq_contains] at hab
    exact not_isSome_iff_eq_none.mp (by simp [hab])
  have hst := hmap.stores.insert row
  rw [without_eq_self (hmap.stores.get_none hnn)] at hst
  refine ⟨⟨hst, ?_, ?_, ?_, hc, hby⟩, ⟨rfl, rfl, rfl⟩⟩
  · cases htm : row.2.completedAt with
    | none => exact hmap.sorts.skip (by rw [eventOrder, htm]; rfl)
    | some time => exact hmap.sorts.insert (by rw [eventOrder, htm]; rfl)
  · rw [map_cons, sum_cons, ← hmap.count_eq]
    exact Nat.add_comm _ _
  · rw [map_cons, sum_cons, ← hmap.bytes_eq]
    exact Nat.add_comm _ _

lemma Charts.trackEvents_ok (hnew : ∀ other ∈ rows, other.1 ≠ row.1) (hrev : row.1 ≠ 0)
    (hnum : row.2.count ≠ 0) (hheld : row.2.heldBytes ≠ 0) (hfits : ChartsFit (row :: rows)) :
    ∃ next, index.trackEvents row.1 row.2.completedAt row.2.count row.2.heldBytes = .ok next := by
  have hnn : index.events[row.1]? = none := by
    rw [eq_none_iff_forall_ne_some]
    intro found hfn
    obtain ⟨other, ho, hky, _⟩ := (hmap.stores.lookup _ _).mp hfn
    exact hnew other ho hky
  have hab : index.events.contains row.1 = false := by
    rw [← ExtTreeMap.isSome_getElem?_eq_contains, hnn]
    rfl
  obtain ⟨hcs, hby⟩ := hfits
  rw [map_cons, sum_cons, ← hmap.count_eq] at hcs
  rw [map_cons, sum_cons, ← hmap.bytes_eq] at hby
  simp only [Index.trackEvents, bind_eq_ok, ensure_eq_ok,
    Bool.and_eq_true, decide_eq_true_eq, Bool.not_eq_true', okOr_eq_ok,
    checkedAdd_eq_some, pure_eq_ok]
  exact ⟨_, (), ⟨⟨⟨hrev, hnum⟩, hheld⟩, hab⟩, _, ⟨by omega, rfl⟩, _, ⟨by omega, rfl⟩, rfl⟩

lemma Charts.erase {count bytes} (hrow : row ∈ rows) (hnum : index.eventCount - row.2.count = count)
    (hbytes : index.eventBytes - row.2.heldBytes = bytes) :
    Charts (without Prod.fst row.1 rows) { index with
      events := index.events.erase row.1
      eventExpiry := match row.2.completedAt with
        | some time => index.eventExpiry.erase ⟨time, row.1⟩
        | none => index.eventExpiry
      eventCount := count
      eventBytes := bytes } := by
  have hnd := hmap.stores.nodup
  have hcs := sum_without (fun row => row.2.count) hnd hrow
  have hsz := sum_without (fun row => row.2.heldBytes) hnd hrow
  have hcount_eq := hmap.count_eq
  have hbytes_eq := hmap.bytes_eq
  have hcount_fits := hmap.count_fits
  have hbytes_fits := hmap.bytes_fits
  refine ⟨hmap.stores.erase _, ?_, ?_, ?_, ?_, ?_⟩
  · cases htm : row.2.completedAt with
    | none =>
      exact hmap.sorts.erase_unsorted hnd hrow (by rw [eventOrder, htm]; rfl)
    | some time =>
      have hor : eventOrder row = some ⟨time, row.1⟩ := by
        rw [eventOrder, htm]
        rfl
      exact hmap.sorts.erase hnd hrow hor (fun _ _ ho => eventOrder_fst ho hor)
  · dsimp only
    omega
  · dsimp only
    omega
  · dsimp only
    omega
  · dsimp only
    omega

omit hmap

lemma Charts.removeEvents (hmap : Charts rows index) (hents : ∀ row, row ∈ rows ↔ row ∈ entries)
    (hsort : entries.Pairwise (·.1 < ·.1))
    (hcut : Index.removeEvents compactedTo entries index = .ok next) :
    Charts (rows.filter fun row => decide (compactedTo < row.1)) next ∧
      SameRequests next index := by
  induction entries generalizing rows index with
  | nil =>
    cases hcut
    obtain rfl : rows = [] := by
      apply eq_nil_iff_forall_not_mem.mpr
      intro row hrw
      exact absurd ((hents row).mp hrw) not_mem_nil
    exact ⟨hmap, ⟨rfl, rfl, rfl⟩⟩
  | cons entry entries ih =>
    obtain ⟨hfs, hsort⟩ := pairwise_cons.mp hsort
    rw [Index.removeEvents] at hcut
    split at hcut
    next hgt =>
      cases hcut
      have hsl : (rows.filter fun row => decide (compactedTo < row.1)) = rows := by
        apply filter_eq_self.mpr
        intro row hrw
        apply decide_eq_true
        rcases mem_cons.mp ((hents row).mp hrw) with rfl | hrw
        · exact hgt
        · exact hgt.trans (hfs row hrw)
      rw [hsl]
      exact ⟨hmap, ⟨rfl, rfl, rfl⟩⟩
    next hbl =>
      simp only [bind_eq_ok, okOr_eq_ok, checkedSub_eq_some] at hcut
      obtain ⟨_, ⟨_, hc⟩, _, ⟨_, hby⟩, hcut⟩ := hcut
      have he : entry ∈ rows := (hents entry).mpr mem_cons_self
      have hr : ∀ row, row ∈ without Prod.fst entry.1 rows ↔ row ∈ entries := by
        intro row
        rw [mem_without, hents, mem_cons]
        constructor
        · rintro ⟨rfl | hrw, hne⟩
          · exact absurd rfl hne
          · exact hrw
        · intro hrw
          exact ⟨.inr hrw, (hfs row hrw).ne'⟩
      have hfl : ((without Prod.fst entry.1 rows).filter
          fun row => decide (compactedTo < row.1)) =
          rows.filter fun row => decide (compactedTo < row.1) := by
        rw [without, List.filter_filter]
        apply filter_congr
        intro row _
        by_cases hgt : compactedTo < row.1
        · have hne : row.1 ≠ entry.1 := by omega
          simp [hgt, hne]
        · simp [hgt]
      obtain ⟨hnx, hfr⟩ := ih (hmap.erase he hc hby) hr hsort hcut
      rw [hfl] at hnx
      exact ⟨hnx, ⟨hfr.requests, hfr.requestOrder, hfr.requestBytes⟩⟩

lemma Charts.unique (hmap : Charts rows index)
    (hother : Charts others other) (heq : ∀ row, row ∈ rows ↔ row ∈ others) :
    SameEvents index other := by
  have hnd := hmap.stores.nodup
  have hos := hother.stores.nodup
  refine ⟨hmap.stores.unique hother.stores heq, hmap.sorts.unique hother.sorts heq, ?_, ?_⟩
  · rw [hmap.count_eq, hother.count_eq, sum_unique _ hnd hos heq]
  · rw [hmap.bytes_eq, hother.bytes_eq, sum_unique _ hnd hos heq]

end Charts

end AgentDx.Store
