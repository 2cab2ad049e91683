import AgentDx.Roots.Offers
import AgentDx.Store.Recovery

/-!
# The lifecycle of a root

Epochs are issued from one floor that only grows, whichever root they are for.
A reservation is stored exactly until it is activated, aborted or replaced, and
an activation consumes the reservation it pins.  So an epoch names one
reservation, at most one activation, and every version of the root that follows
from it.
-/

namespace AgentDx.Roots

open List hiding next
open Store Client Std Word Transition
open Dfs hiding permissionDenied

/-! ## What the decided transactions reserved and activated -/

def reservationPut? : TxnMutation → Option RootReservationRecord
  | .put ⟨.rootReservation reservation, _⟩ => some reservation
  | _ => none

def rootPut? : TxnMutation → Option RootRecord
  | .put ⟨.root root, _⟩ => some root
  | _ => none

@[simp]
lemma reservationPut?_putEntity (entity) : reservationPut? (putEntity entity) = match entity with
      | .rootReservation reservation => some reservation
      | _ => none := by
  cases entity <;> rfl

@[simp]
lemma reservationPut?_deleteKey (key) : reservationPut? (deleteKey key) = none :=
  rfl

@[simp]
lemma reservationPut?_record (owned) : reservationPut? (.recordRequestOutcome owned) = none :=
  rfl

@[simp]
lemma rootPut?_putEntity (entity) : rootPut? (putEntity entity) = match entity with
      | .root root => some root
      | _ => none := by
  cases entity <;> rfl

@[simp]
lemma rootPut?_deleteKey (key) : rootPut? (deleteKey key) = none :=
  rfl

@[simp]
lemma rootPut?_record (owned) : rootPut? (.recordRequestOutcome owned) = none :=
  rfl

/-- The reservation a decided transaction stored. -/
def reservedBy : MetaTxn × Result TxnOutcome → List RootReservationRecord
  | (txn, .ok (.committed _ _)) => txn.mutations.filterMap reservationPut?
  | _ => []

/-- The root a decided transaction activated. -/
def activatedBy : MetaTxn × Result TxnOutcome → List RootRecord
  | (txn, .ok (.committed _ _)) =>
    if txn.operation = .activateRoot then
      txn.mutations.filterMap rootPut?
    else
      []
  | _ => []

/-- All reservations ever stored, in the order of their commits. -/
def reserved (log : List (MetaTxn × Result TxnOutcome)) : List RootReservationRecord :=
  log.flatMap reservedBy

/-- All roots as they were activated. -/
def activated (log : List (MetaTxn × Result TxnOutcome)) : List RootRecord :=
  log.flatMap activatedBy

/-- The root has the epoch and the home of the reservation. -/
structure Carries (root : RootRecord) (reservation : RootReservationRecord) : Prop where
  rootId_eq : root.rootId = reservation.rootId
  rootEpoch_eq : root.rootEpoch = reservation.rootEpoch
  homeNodeId_eq : root.homeNodeId = reservation.homeNodeId
  homeSessionId_eq : root.homeSessionId = reservation.homeSessionId

lemma carries_activatedRoot (record localPrepareId) :
    Carries (activatedRoot record localPrepareId) record :=
  ⟨rfl, rfl, rfl, rfl⟩

/-- A later version of an activated root: only the session of the home may
have changed. -/
structure Continues (root first : RootRecord) : Prop where
  rootId_eq : root.rootId = first.rootId
  rootEpoch_eq : root.rootEpoch = first.rootEpoch
  homeNodeId_eq : root.homeNodeId = first.homeNodeId

lemma Continues.refl (root) : Continues root root := ⟨rfl, rfl, rfl⟩

lemma Continues.recovered (hcont : Continues root first) (homeSessionId : String) :
    Continues (recoveredRoot root homeSessionId) first :=
  ⟨hcont.rootId_eq, hcont.rootEpoch_eq, hcont.homeNodeId_eq⟩

section Logs

variable {log : List (MetaTxn × Result TxnOutcome)} {txn : MetaTxn}
variable {outcome : Result TxnOutcome} {revision : ℕ} {reply : RequestOutcome}

lemma reserved_append (entry) : reserved (log ++ [entry]) = reserved log ++ reservedBy entry := by
  simp [reserved]

lemma activated_append (entry) :
    activated (log ++ [entry]) = activated log ++ activatedBy entry := by
  simp [activated]

lemma silent_of_rejected (hout : ∀ revision reply, outcome ≠ .ok (.committed revision reply)) :
    reservedBy (txn, outcome) = [] ∧ activatedBy (txn, outcome) = [] := by
  unfold reservedBy activatedBy
  cases outcome with
  | error error => exact ⟨rfl, rfl⟩
  | ok outcome =>
    cases outcome with
    | committed revision reply => exact absurd rfl (hout revision reply)
    | conditionFailed revision existing => exact ⟨rfl, rfl⟩

end Logs

/-! ## The invariant -/

/-- What holds of every reachable state. -/
structure Lifecycle (state : State) (seen : List State)
    (log : List (MetaTxn × Result TxnOutcome)) : Prop where
  ascending : ((reserved log).map RootReservationRecord.rootEpoch).Pairwise (· < ·)
  floor : ∀ reservation ∈ reserved log, ∃ value,
    state.entity? .rootEpochWatermark = some (.rootEpochWatermark value) ∧
      reservation.rootEpoch ≤ value
  pending : ∀ rootId entity, state.entity? (.rootReservation rootId) = some entity →
    ∃ reservation ∈ reserved log, entity = .rootReservation reservation ∧
      reservation.rootId = rootId ∧ reservation.rootEpoch ∉ (activated log).map RootRecord.rootEpoch
  exclusive : ∀ rootId, state.entity? (.root rootId) = none ∨
    state.entity? (.rootReservation rootId) = none
  carried : ∀ root ∈ activated log, ∃ reservation ∈ reserved log, Carries root reservation
  once : ((activated log).map RootRecord.rootEpoch).Nodup
  active : ∀ view ∈ seen, ∀ rootId entity, view.entity? (.root rootId) = some entity →
    ∃ root, entity = .root root ∧ root.rootId = rootId ∧
      ∃ first ∈ activated log, Continues root first

section Invariant

variable {state next : State} {seen : List State}
variable {log more : List (MetaTxn × Result TxnOutcome)}

lemma Lifecycle.reservation_unique (hlife : Lifecycle state seen log) (hleft : left ∈ reserved log)
    (hright : right ∈ reserved log) (hepoch : left.rootEpoch = right.rootEpoch) : left = right := by
  have h : ((reserved log).map RootReservationRecord.rootEpoch).Nodup :=
    hlife.ascending.imp fun hlt => Nat.ne_of_lt hlt
  exact inj_on_of_nodup_map h hleft hright hepoch

lemma Lifecycle.start (hroot : ∀ rootId, state.entity? (.root rootId) = none)
    (hkeep : ∀ rootId, state.entity? (.rootReservation rootId) = none) :
    Lifecycle state [state] [] where
  ascending := .nil
  floor := by simp [reserved]
  pending rootId entity hen := by simp [hkeep rootId] at hen
  exclusive rootId := .inl (hroot rootId)
  carried := by simp [activated]
  once := .nil
  active view hvw rootId entity hen := by
    rw [mem_singleton.mp hvw, hroot rootId] at hen
    cases hen

lemma Lifecycle.shrink (hlife : Lifecycle state seen log) (hstate : state ∈ seen)
    (hroot : ∀ rootId, next.entity? (.root rootId) =
      state.entity? (.root rootId) ∨ next.entity? (.root rootId) = none)
    (hreservation : ∀ rootId, next.entity? (.rootReservation rootId) =
      state.entity? (.rootReservation rootId) ∨ next.entity? (.rootReservation rootId) = none)
    (hfloor : next.entity? .rootEpochWatermark = state.entity? .rootEpochWatermark ∨
      state.entity? .rootEpochWatermark = none) (hkeep : reserved more = reserved log)
    (hact : activated more = activated log) : Lifecycle next (next :: seen) more := by
  have hkp : ∀ rootId entity, next.entity? (.root rootId) = some entity →
      state.entity? (.root rootId) = some entity := by
    intro rootId entity hen
    rcases hroot rootId with heq | hnn
    · exact heq.symm.trans hen
    · simp [hnn] at hen
  refine ⟨?_, ?_, ?_, ?_, ?_, ?_, ?_⟩
  · rw [hkeep]
    exact hlife.ascending
  · rw [hkeep]
    intro reservation hm
    obtain ⟨value, hst, hle⟩ := hlife.floor reservation hm
    rcases hfloor with heq | hnn
    · exact ⟨value, heq.trans hst, hle⟩
    · simp [hnn] at hst
  · rw [hkeep, hact]
    intro rootId entity hen
    rcases hreservation rootId with heq | hnn
    · exact hlife.pending rootId entity (heq.symm.trans hen)
    · simp [hnn] at hen
  · intro rootId
    rcases hlife.exclusive rootId with hnn | hnn
    · rcases hroot rootId with heq | hnx
      · exact .inl (heq.trans hnn)
      · exact .inl hnx
    · rcases hreservation rootId with heq | hnx
      · exact .inr (heq.trans hnn)
      · exact .inr hnx
  · rw [hkeep, hact]
    exact hlife.carried
  · rw [hact]
    exact hlife.once
  · rw [hact]
    refine forall_mem_cons.mpr ⟨fun rootId entity hen => ?_, hlife.active⟩
    exact hlife.active state hstate rootId entity (hkp rootId entity hen)

/-! ## The transactions -/

lemma root_kept_or_dropped (hputs : ∀ mutation ∈ mutations, rootPut? mutation = none)
    (rootId held) : leavesAll mutations (.root rootId) held = held ∨
      leavesAll mutations (.root rootId) held = none := by
  cases hlf : leavesAll mutations (.root rootId) held with
  | none => exact .inr rfl
  | some entity =>
    rcases leavesAll_eq_some hlf with hh | ⟨⟨value, _⟩, hm, rfl, hky⟩
    · exact .inl hh.symm
    · cases value <;> simp [entityKey] at hky
      cases hputs _ hm

lemma reservation_kept_or_dropped
    (hputs : ∀ mutation ∈ mutations, reservationPut? mutation = none) (rootId held) :
    leavesAll mutations (.rootReservation rootId) held = held ∨
      leavesAll mutations (.rootReservation rootId) held = none := by
  cases hlf : leavesAll mutations (.rootReservation rootId) held with
  | none => exact .inr rfl
  | some entity =>
    rcases leavesAll_eq_some hlf with hh | ⟨⟨value, _⟩, hm, rfl, hky⟩
    · exact .inl hh.symm
    · cases value <;> simp [entityKey] at hky
      cases hputs _ hm

variable (hlife : Lifecycle state seen log)

include hlife

lemma Lifecycle.quiet (hstate : state ∈ seen)
    (hroots : ∀ mutation ∈ txn.mutations, rootPut? mutation = none)
    (hresv : ∀ mutation ∈ txn.mutations, reservationPut? mutation = none)
    (hfloor : ∀ mutation ∈ txn.mutations, mutation.target? ≠ some .rootEpochWatermark)
    (hcom : Commits state txn next) :
    Lifecycle next (next :: seen) (log ++ [(txn, .ok (.committed revision reply))]) := by
  apply hlife.shrink hstate
  · intro rootId
    rw [hcom.entity?]
    exact root_kept_or_dropped hroots rootId _
  · intro rootId
    rw [hcom.entity?]
    exact reservation_kept_or_dropped hresv rootId _
  · rw [hcom.entity?]
    exact .inl (leavesAll_of_targets hfloor _)
  · rw [reserved_append, reservedBy, filterMap_eq_nil_iff.mpr hresv, append_nil]
  · rw [activated_append, activatedBy, filterMap_eq_nil_iff.mpr hroots, ite_self, append_nil]

lemma Lifecycle.allocate (hstate : state ∈ seen)
    (hcom : Commits state (allocationTxn input home existing previous) next)
    (hkeep : reserved more = reserved log ++ [reservationRecord input home (previous + 1)])
    (hact : activated more = activated log) : Lifecycle next (next :: seen) more := by
  have hpr : state.rootEpochWatermark = previous := by
    obtain ⟨_, hm⟩ := hcom.matched (.rootEpochWatermarkEquals previous)
      (by simp [allocationTxn, serviceTxn])
    simpa [conditionMatches] using hm
  have hab : state.entity? (.root input.rootId) = none :=
    hcom.missing (by simp [allocationTxn, serviceTxn])
  have hbl : ∀ reservation ∈ reserved log, reservation.rootEpoch < previous + 1 := by
    intro reservation hmm
    obtain ⟨value, hst, hle⟩ := hlife.floor reservation hmm
    have hvl : state.rootEpochWatermark = value := by
      simp [State.rootEpochWatermark, hst]
    omega
  have hun : ∀ root ∈ activated log, root.rootEpoch < previous + 1 := by
    intro root hrt
    obtain ⟨reservation, hmm, hcr⟩ := hlife.carried root hrt
    exact hcr.rootEpoch_eq.trans_lt (hbl reservation hmm)
  have hro : ∀ rootId, next.entity? (.root rootId) = state.entity? (.root rootId) := by
    intro rootId
    rw [hcom.entity?]
    simp [allocationTxn, serviceTxn, entityKey]
  have hre : ∀ rootId, next.entity? (.rootReservation rootId) = if input.rootId = rootId then
        some (.rootReservation (reservationRecord input home (previous + 1)))
      else
        state.entity? (.rootReservation rootId) := by
    intro rootId
    rw [hcom.entity?]
    simp [allocationTxn, serviceTxn, entityKey, reservationRecord]
  have hfl : next.entity? .rootEpochWatermark = some (.rootEpochWatermark (previous + 1)) := by
    rw [hcom.entity?]
    simp [allocationTxn, serviceTxn, entityKey]
  refine ⟨?_, ?_, ?_, ?_, ?_, ?_, ?_⟩
  · rw [hkeep, map_append, pairwise_append]
    refine ⟨hlife.ascending, pairwise_singleton _ _, ?_⟩
    intro epoch hep fresh hf
    obtain ⟨reservation, hmm, rfl⟩ := mem_map.mp hep
    obtain rfl : fresh = previous + 1 := by
      simpa [reservationRecord] using hf
    exact hbl reservation hmm
  · rw [hkeep]
    intro reservation hmm
    refine ⟨previous + 1, hfl, ?_⟩
    rcases mem_append.mp hmm with hol | hnw
    · exact (hbl reservation hol).le
    · rw [mem_singleton.mp hnw]
      exact le_rfl
  · rw [hkeep, hact]
    intro rootId entity hen
    rw [hre] at hen
    split at hen
    next heq =>
      cases hen
      refine ⟨_, mem_append_right _ (mem_singleton_self _), rfl, heq, fun hmm => ?_⟩
      obtain ⟨root, hrt, hep⟩ := mem_map.mp hmm
      exact absurd hep (Nat.ne_of_lt (hun root hrt))
    · obtain ⟨reservation, hmm, hr⟩ := hlife.pending rootId entity hen
      exact ⟨reservation, mem_append_left _ hmm, hr⟩
  · intro rootId
    rw [hro, hre]
    split
    next heq =>
      exact .inl (heq ▸ hab)
    · exact hlife.exclusive rootId
  · rw [hkeep, hact]
    intro root hrt
    obtain ⟨reservation, hmm, hcr⟩ := hlife.carried root hrt
    exact ⟨reservation, mem_append_left _ hmm, hcr⟩
  · rw [hact]
    exact hlife.once
  · rw [hact]
    refine forall_mem_cons.mpr ⟨fun rootId entity hen => ?_, hlife.active⟩
    rw [hro] at hen
    exact hlife.active state hstate rootId entity hen

/-- What a committed activation finds and leaves. -/
structure Activates (state next : State) (record : RootReservationRecord)
    (root : RootRecord) : Prop where
  found : state.entity? (.rootReservation record.rootId) = some (.rootReservation record)
  absent : state.entity? (.root record.rootId) = none
  carries : Carries root record
  roots : ∀ rootId, next.entity? (.root rootId) = if record.rootId = rootId then some (.root root)
    else state.entity? (.root rootId)
  reservations : ∀ rootId, next.entity? (.rootReservation rootId) =
    if record.rootId = rootId then none
    else state.entity? (.rootReservation rootId)
  floor : next.entity? .rootEpochWatermark = state.entity? .rootEpochWatermark

omit hlife in
lemma activationTxn_activates
    (hcom : Commits state (activationTxn request record localPrepareId) next) :
    Activates state next record (activatedRoot record localPrepareId) where
  found := by
    have h : .entityEquals (.rootReservation record) ∈
        (activationTxn request record localPrepareId).conditions := by
      simp [activationTxn, serviceTxn]
    exact hcom.entityEquals h
  absent := hcom.missing (by simp [activationTxn, serviceTxn, activatedRoot])
  carries := carries_activatedRoot record localPrepareId
  roots rootId := by
    rw [hcom.entity?]
    simp [activationTxn, serviceTxn, entityKey, activatedRoot]
  reservations rootId := by
    rw [hcom.entity?]
    simp [activationTxn, serviceTxn, entityKey, activatedRoot, homeGrant]
  floor := by
    rw [hcom.entity?]
    simp [activationTxn, serviceTxn, entityKey]

lemma Lifecycle.activate (hstate : state ∈ seen) (hactivates : Activates state next record root)
    (hkeep : reserved more = reserved log) (hact : activated more = activated log ++ [root]) :
    Lifecycle next (next :: seen) more := by
  obtain ⟨hfn, hab, hcr, hro, hre, hfl⟩ := hactivates
  obtain ⟨stored, hm, hen, _, hf⟩ := hlife.pending _ _ hfn
  cases hen
  have hun : root.rootEpoch ∉ (activated log).map RootRecord.rootEpoch := hcr.rootEpoch_eq ▸ hf
  refine ⟨?_, ?_, ?_, ?_, ?_, ?_, ?_⟩
  · rw [hkeep]
    exact hlife.ascending
  · rw [hkeep, hfl]
    exact hlife.floor
  · rw [hkeep, hact]
    intro rootId entity hen
    rw [hre] at hen
    split at hen
    · cases hen
    next ho =>
      obtain ⟨reservation, hres, hkn, hid, hpn⟩ := hlife.pending rootId entity hen
      refine ⟨reservation, hres, hkn, hid, ?_⟩
      rw [map_append, mem_append]
      rintro (hol | hnw)
      · exact hpn hol
      · have hep : reservation.rootEpoch = record.rootEpoch :=
          (by simpa using hnw : reservation.rootEpoch = root.rootEpoch).trans hcr.rootEpoch_eq
        obtain rfl := hlife.reservation_unique hres hm hep
        exact ho hid
  · intro rootId
    rw [hro, hre]
    split
    · exact .inr rfl
    · exact hlife.exclusive rootId
  · rw [hkeep, hact]
    intro other ho
    rcases mem_append.mp ho with hol | hnw
    · exact hlife.carried other hol
    · exact ⟨record, hm, mem_singleton.mp hnw ▸ hcr⟩
  · rw [hact, map_append]
    exact hlife.once.append (nodup_singleton _) (by simpa using hun)
  · have hgr : ∀ view ∈ seen, ∀ rootId entity,
        view.entity? (.root rootId) = some entity → ∃ root, entity = .root root ∧
          root.rootId = rootId ∧ ∃ first ∈ activated more, Continues root first := by
      intro view hvw rootId entity hen
      obtain ⟨old, hkn, hid, first, hfs, hcn⟩ := hlife.active view hvw rootId entity hen
      exact ⟨old, hkn, hid, first, hact ▸ mem_append_left _ hfs, hcn⟩
    refine forall_mem_cons.mpr ⟨fun rootId entity hen => ?_, hgr⟩
    rw [hro] at hen
    split at hen
    next heq =>
      cases hen
      exact ⟨root, rfl, hcr.rootId_eq.trans heq, root,
        hact ▸ mem_append_right _ (mem_singleton_self _), .refl root⟩
    · exact hgr state hstate rootId entity hen

/-- A recovery replaces a root by a later version of the same activation. -/
lemma Lifecycle.recover (hstate : state ∈ seen) (hearly : early ∈ seen)
    (hroot : early.entity? (.root rootId) = some (.root root))
    (hcom : Commits state (recoveryTxn requestId (recoveredRoot root homeSessionId) generation)
      next)
    (hkeep : reserved more = reserved log) (hact : activated more = activated log) :
    Lifecycle next (next :: seen) more := by
  obtain ⟨held, hh, hep⟩ : ∃ held : RootRecord,
      state.entity? (.root root.rootId) = some (.root held) ∧ held.rootEpoch = root.rootEpoch := by
    apply stored_of_rootEpochEquals hcom
    simp [recoveryTxn, serviceTxn, recoveredRoot]
  have hro : ∀ id, next.entity? (.root id) =
      if root.rootId = id then some (.root (recoveredRoot root homeSessionId))
      else state.entity? (.root id) := by
    intro id
    rw [hcom.entity?]
    simp [recoveryTxn, serviceTxn, entityKey, recoveredRoot]
  have hre : ∀ id, next.entity? (.rootReservation id) = state.entity? (.rootReservation id) := by
    intro id
    rw [hcom.entity?]
    simp [recoveryTxn, serviceTxn, entityKey]
  have hfl : next.entity? .rootEpochWatermark = state.entity? .rootEpochWatermark := by
    rw [hcom.entity?]
    simp [recoveryTxn, serviceTxn, entityKey]
  obtain ⟨_, hkn, _, first, hfs, hcn⟩ := hlife.active early hearly rootId _ hroot
  cases hkn
  refine ⟨hkeep ▸ hlife.ascending, ?_, ?_, ?_, ?_, hact ▸ hlife.once, ?_⟩
  · rw [hkeep, hfl]
    exact hlife.floor
  · rw [hkeep, hact]
    intro id entity hen
    exact hlife.pending id entity (hre id ▸ hen)
  · intro id
    rw [hro, hre]
    split
    next heq =>
      rcases hlife.exclusive id with hnn | hnn
      · rw [← heq, hh] at hnn
        cases hnn
      · exact .inr hnn
    · exact hlife.exclusive id
  · rw [hkeep, hact]
    exact hlife.carried
  · rw [hact]
    refine forall_mem_cons.mpr ⟨fun id entity hen => ?_, hlife.active⟩
    rw [hro] at hen
    split at hen
    next heq =>
      cases hen
      exact ⟨_, rfl, heq, first, hfs, hcn.recovered homeSessionId⟩
    · exact hlife.active state hstate id entity hen

lemma Lifecycle.spares (hstate : state ∈ seen) (hspares : SparesRoots state next) :
    Lifecycle next (next :: seen) log := by
  apply hlife.shrink hstate
  · exact fun rootId => .inl (hspares.root_eq rootId)
  · exact fun rootId => .inl (hspares.reservation_eq rootId)
  · rcases hspares.floor with heq | ⟨h, _⟩
    · exact .inl heq
    · exact .inr h
  · rfl
  · rfl

omit hlife

lemma RootTxn.activates {Seen} (htxn : RootTxn Seen txn)
    (hop : txn.operation = .activateRoot) (hcom : Commits state txn next) :
    ∃ record root, Activates state next record root := by
  cases htxn with
  | activation request record localPrepareId =>
    exact ⟨record, _, activationTxn_activates hcom⟩
  | sameIntent input existing | allocation input home existing hrm
  | abortion request rootId reservation | deactivation root grant requestId
  | acquisition her hlt hrt hhm | recovery her hlt hrt => cases hop

end Invariant

/-! ## Every run -/

section Runs

variable [Footprint]

lemma Lifecycle.decides (hlife : Lifecycle state seen log)
    (hstate : state ∈ seen) (htxn : RootTxn (· ∈ seen) txn)
    (hdec : Decides clock state txn next outcome) :
    Lifecycle next (next :: seen) (log ++ [(txn, outcome)]) := by
  rcases hdec.cases with ⟨hen, _, hot⟩ | ⟨revision, reply, rfl, hcm⟩
  · have hsl : reservedBy (txn, outcome) = [] ∧ activatedBy (txn, outcome) = [] :=
      silent_of_rejected hot
    obtain ⟨hrs, hac⟩ := hsl
    have heq : ∀ key, next.entity? key = state.entity? key := by
      intro key
      rw [State.entity?, hen]
      rfl
    apply hlife.shrink hstate
    · exact fun rootId => .inl (heq _)
    · exact fun rootId => .inl (heq _)
    · exact .inl (heq _)
    · rw [reserved_append, hrs, append_nil]
    · rw [activated_append, hac, append_nil]
  · cases htxn with
    | sameIntent input existing =>
      apply hlife.quiet hstate _ _ _ hcm
      · simp [sameIntentTxn, serviceTxn]
      · simp [sameIntentTxn, serviceTxn]
      · simp [sameIntentTxn, serviceTxn]
    | allocation input home existing hrm =>
      apply hlife.allocate hstate hcm
      · simp [reserved_append, reservedBy, allocationTxn, serviceTxn]
      · simp [activated_append, activatedBy, allocationTxn, serviceTxn]
    | activation request record localPrepareId =>
      apply hlife.activate hstate (activationTxn_activates hcm)
      · simp [reserved_append, reservedBy, activationTxn, serviceTxn]
      · simp [activated_append, activatedBy, activationTxn, serviceTxn]
    | abortion request rootId reservation =>
      apply hlife.quiet hstate _ _ _ hcm
      · simp [abortTxn, serviceTxn]
      · simp [abortTxn, serviceTxn]
      · simp [abortTxn, serviceTxn]
    | deactivation root grant requestId =>
      apply hlife.quiet hstate _ _ _ hcm
      · simp [deactivationTxn, serviceTxn]
      · simp [deactivationTxn, serviceTxn]
      · simp [deactivationTxn, serviceTxn, entityKey]
    | acquisition her hlt hrt hhm =>
      apply hlife.quiet hstate _ _ _ hcm
      · simp [acquisitionTxn, serviceTxn]
      · simp [acquisitionTxn, serviceTxn]
      · simp [acquisitionTxn, serviceTxn, entityKey]
    | recovery her hlt hrt =>
      apply hlife.recover hstate her hrt hcm
      · simp [reserved_append, reservedBy, recoveryTxn, serviceTxn]
      · simp [activated_append, activatedBy, recoveryTxn, serviceTxn]

variable [Hash]

/-- In every interleaving that starts without roots: epochs grow from one
committed reservation to the next, no root id is active and reserved, every
activation consumes a stored reservation and carries its epoch and home, each
epoch is activated at most once, and a stored root still belongs to its
activation. -/
theorem roots_live_once {first last : World State MetaTxn (Result TxnOutcome) Error}
    {labels : List (Option (MetaTxn × Result TxnOutcome))}
    (hrun : Run (Step StartsRoot Decides SparesRoots) first labels last)
    (hseen : first.seen = [first.state]) (htasks : first.tasks = [])
    (hroots : ∀ rootId, first.state.entity? (.root rootId) = none)
    (hkeep : ∀ rootId, first.state.entity? (.rootReservation rootId) = none) :
    ((reserved labels.reduceOption).map RootReservationRecord.rootEpoch).Pairwise (· < ·) ∧
    (∀ rootId, last.state.entity? (.root rootId) = none ∨
      last.state.entity? (.rootReservation rootId) = none) ∧
    (∀ root ∈ activated labels.reduceOption,
      ∃ reservation ∈ reserved labels.reduceOption, Carries root reservation) ∧
    (∀ txn revision reply next,
      Step StartsRoot Decides SparesRoots last (some (txn, .ok (.committed revision reply))) next →
      txn.operation = .activateRoot → ∃ record root, Activates last.state next.state record root) ∧
    ((activated labels.reduceOption).map RootRecord.rootEpoch).Nodup ∧
    (∀ rootId root, last.state.entity? (.root rootId) = some (.root root) →
      ∃ origin ∈ activated labels.reduceOption, Continues root origin) := by
  have htraced : Traced StartsRoot first := by
    refine ⟨by simp [hseen], by simp [htasks]⟩
  have hlife : Lifecycle last.state last.seen labels.reduceOption := by
    apply @run_safe _ _ _ _ StartsRoot Decides SparesRoots
      (fun _ state seen log => Lifecycle state seen log) _ _ _ _ _ _ hrun htraced
    · rw [hseen]
      exact .start hroots hkeep
    · exact fun _ hlife => hlife
    · exact fun hstate henv hlife => hlife.spares hstate henv
    · rintro clock state next seen log program txn outcome hstate
        ⟨operation, rfl⟩ hoffer hdecides hlife
      exact hlife.decides hstate (RootOperation.rootTxn hoffer) hdecides
  refine ⟨hlife.ascending, hlife.exclusive, hlife.carried, ?_, hlife.once, ?_⟩
  · intro txn revision reply next hstep hop
    obtain ⟨_, ⟨operation, rfl⟩, hoffer, hdecides, _⟩ := hstep.offered (Run.traced hrun htraced)
    rcases hdecides.cases with ⟨_, _, houtcome⟩ | ⟨_, _, _, hcommits⟩
    · exact absurd rfl (houtcome revision reply)
    · exact (RootOperation.rootTxn hoffer).activates hop hcommits
  · intro rootId root hroot
    have hpublished := (Run.traced hrun htraced).published
    obtain ⟨_, hkind, _, origin, horigin, hcontinues⟩ :=
      hlife.active last.state hpublished rootId _ hroot
    cases hkind
    exact ⟨origin, horigin, hcontinues⟩

end Runs

/-! ## One root, twice -/

/-- A store in which one node is registered. -/
def nodeStore : State := { State.default with
  revision := 1
  entities := ExtTreeMap.empty.insert (.currentNodeSession "n") ⟨1, .nodeSession
    ⟨"n", "s", "", "", "", true, [], 1, 1000000⟩⟩ }

def reserveAgain (requestId : String) : RootOperation :=
  .reserve false ⟨requestId, "r", "n", "s", 0, "intent"⟩

/-- The root is reserved, activated, deactivated and reserved again. -/
def reuseSchedule : List (ℕ × Service Unit) :=
  letI := plainHash
  [(0, (reserveAgain "1").program), (0, (RootOperation.activate ⟨"2", ⟨"r", 1, "n", "s", "intent",
      "prepare:r:s:intent:1", "n", "s"⟩, "local"⟩).program),
    (0, (RootOperation.deactivate ⟨"3", "r", 1, "n", "s", none⟩).program),
    (0, (reserveAgain "4").program)]

/-- The second incarnation gets a new epoch, although no record of the first one
is left but its grant. -/
theorem root_reserved_anew : letI := plainFootprint
    letI := plainHash
    ∃ labels last,
      Run (Step StartsRoot Decides SparesRoots) ⟨0, nodeStore, [nodeStore], []⟩ labels last ∧
      (reserved labels.reduceOption).map RootReservationRecord.rootEpoch = [1, 2] ∧
      (activated labels.reduceOption).map RootRecord.rootEpoch = [1] ∧
      ((reserved labels.reduceOption).map RootReservationRecord.rootEpoch).Pairwise (· < ·) := by
  let _ := plainFootprint
  let _ := plainHash
  obtain ⟨labels, last, hrun, _, hlog, _⟩ :=
    @schedule_run _ _ _ _ StartsRoot Decides SparesRoots
      (fun _ _ _ => true) decideAt
      (fun clock state txn _ => decides_decideAt clock state txn)
      reuseSchedule (by simp [reuseSchedule, StartsRoot])
      ⟨0, nodeStore, [nodeStore], []⟩ (by simp [reuseSchedule])
      (by simp) (by decide +kernel)
  refine ⟨labels, last, hrun, ?_, ?_, ?_⟩
  · rw [hlog]
    decide +kernel
  · rw [hlog]
    decide +kernel
  · refine (roots_live_once hrun rfl rfl (fun rootId => ?_) fun rootId => ?_).1 <;>
    simp [nodeStore, State.entity?]

end AgentDx.Roots
