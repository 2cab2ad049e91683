import AgentDx.Lib.Fencing
import AgentDx.Dfs.Gc
import AgentDx.Dfs.NamespaceTxn
import AgentDx.Store.Recovery

/-!
# Write leases as fencing tokens

The epoch of a lease lives in the lease entity alone.  While that entity is
kept, every grant is fenced: at most one lease of an inode is unexpired, a new
grant has a larger epoch than all before it, and a superseded token is never
accepted again.  The collector removes expired leases, and the next grant then
starts over at epoch 1.
-/

namespace AgentDx.Dfs

open Store Client Std Word Fencing Transition List Option

/-! ## Leases as tokens -/

/-- The fencing identity and expiry of a lease. -/
def WriteLease.token (lease : WriteLease) : Token (String × String) :=
  ⟨(lease.ownerNodeId, lease.ownerSessionId), lease.leaseEpoch, lease.expiresAtUnixMs⟩

/-- The lease a mutation stores for an inode. -/
def leasePut? (inodeId : InodeId) : TxnMutation → Option WriteLease
  | .put ⟨.dfsWriteLease lease, _⟩ =>
    if lease.inodeId = inodeId then some lease else none
  | _ => none

/-- The leases of an inode that a decided transaction granted. -/
def grantedBy (inodeId : InodeId) : MetaTxn × Result TxnOutcome → List WriteLease
  | (txn, .ok (.committed _ _)) => txn.mutations.filterMap (leasePut? inodeId)
  | _ => []

/-- All leases of an inode ever granted: the one stored at the start and those
granted by the decided transactions. -/
def granted (inodeId : InodeId) (first : State)
    (log : List (MetaTxn × Result TxnOutcome)) : List WriteLease :=
  (leaseIn first inodeId).toList ++ log.flatMap (grantedBy inodeId)

/-- How a grant relates to the lease it is stored over. -/
inductive Grants (Read : ℕ → Prop) : Option WriteLease → WriteLease → Prop where
  | first {lease : WriteLease} (hepoch : lease.leaseEpoch = 1) : Grants Read none lease
  | extended {held lease : WriteLease} {time} (hread : Read time)
      (hlive : time < held.expiresAtUnixMs) (htoken : lease.sameToken held = true)
      (hexpires : held.expiresAtUnixMs ≤ lease.expiresAtUnixMs) : Grants Read (some held) lease
  | takenOver {held lease : WriteLease} {time} (hread : Read time)
      (hexpired : held.expiresAtUnixMs ≤ time)
      (hepoch : lease.leaseEpoch = saturatingAdd held.leaseEpoch 1) : Grants Read (some held) lease

lemma sameToken_eq_true {left : WriteLease} {right} :
    left.sameToken right = true ↔ left.inodeId = right.inodeId ∧
      left.ownerNodeId = right.ownerNodeId ∧ left.ownerSessionId = right.ownerSessionId ∧
      left.leaseEpoch = right.leaseEpoch := by
  simp [WriteLease.sameToken, and_assoc]

variable {Read : ℕ → Prop} {existing : Option WriteLease} {inodeId : InodeId}

lemma grants_grantLease (hread : Read time) (hfree : (leaseBase existing callerId ownerSessionId
        inodeId).expiresAtUnixMs ≤ time ∨
      (leaseBase existing callerId ownerSessionId inodeId).heldBy callerId ownerSessionId = true) :
    Grants Read existing (grantLease (leaseBase existing callerId ownerSessionId
      inodeId) callerId ownerSessionId time requestedExpiry) := by
  cases existing with
  | none => exact .first (by simp [grantLease, leaseBase, saturatingAdd, size])
  | some held =>
    by_cases hlv : time < held.expiresAtUnixMs
    · have hh : held.heldBy callerId ownerSessionId = true := by
        rcases hfree with hex | hh
        · exact absurd hlv (Nat.not_lt.mpr hex)
        · exact hh
      obtain ⟨hn, hss⟩ : held.ownerNodeId = callerId ∧ held.ownerSessionId = ownerSessionId := by
        simpa [WriteLease.heldBy] using hh
      refine .extended hread hlv ?_ ?_
      · simp [sameToken_eq_true, grantLease, leaseBase, hh, hlv, hn, hss]
      · simp [grantLease, leaseBase, hh, hlv]
    · refine .takenOver hread (Nat.not_lt.mp hlv) ?_
      simp [grantLease, leaseBase, hlv]

/-! ## What the operations do to a lease -/

/-- The transaction replaces the lease of an inode by a grant on top of what it
pins. -/
structure GrantTxn (Read : ℕ → Prop) (inodeId : InodeId) (txn : MetaTxn)
    (existing : Option WriteLease) (lease : WriteLease) : Prop where
  pinned : pinLease inodeId existing ∈ txn.conditions
  base_inode : ∀ held ∈ existing, held.inodeId = inodeId
  inode_eq : lease.inodeId = inodeId
  grants : Grants Read existing lease
  leaves : ∀ held, leavesAll txn.mutations (.dfsWriteLease inodeId) held =
    some (.dfsWriteLease lease)
  puts : txn.mutations.filterMap (leasePut? inodeId) = [lease]

/-- The transaction does not touch the lease of an inode. -/
def KeepsLease (inodeId : InodeId) (txn : MetaTxn) : Prop :=
  ∀ mutation ∈ txn.mutations, mutation.target? ≠ some (.dfsWriteLease inodeId)

variable {txn : MetaTxn}

lemma KeepsLease.puts (hkeeps : KeepsLease inodeId txn) :
    txn.mutations.filterMap (leasePut? inodeId) = [] := by
  rw [filterMap_eq_nil_iff]
  intro mutation hm
  have htg := hkeeps mutation hm
  unfold leasePut?
  split
  · simpa [TxnMutation.target?, entityKey] using htg
  · rfl

variable {view : State} {lease : WriteLease}

lemma leaseIn_eq_some : leaseIn view inodeId = some lease ↔
      view.entity? (.dfsWriteLease inodeId) = some (.dfsWriteLease lease) := by
  unfold leaseIn
  split <;> simp_all

@[simp]
lemma leasePut?_putEntity_lease (inodeId lease) :
    leasePut? inodeId (putEntity (.dfsWriteLease lease)) =
      if lease.inodeId = inodeId then some lease else none :=
  rfl

@[simp]
lemma leasePut?_putInode (inodeId inode) : leasePut? inodeId (putInode inode) = none :=
  rfl

@[simp]
lemma leasePut?_putDentry (inodeId dentry) : leasePut? inodeId (putDentry dentry) = none :=
  rfl

@[simp]
lemma leasePut?_record (inodeId owned) : leasePut? inodeId (.recordRequestOutcome owned) = none :=
  rfl

/-- A lease transaction over another inode keeps this one, over this inode it is
a grant. -/
lemma leaseTxn_cases (hbase : ∀ held ∈ existing, held.inodeId = target)
    (hino : lease.inodeId = target) (hgrant : Grants Read existing lease) :
    KeepsLease inodeId (leaseTxn request operation (pinLease target existing) lease) ∨
    GrantTxn Read inodeId (leaseTxn request operation (pinLease target existing)
      lease) existing lease := by
  by_cases heq : target = inodeId
  · subst heq
    refine .inr ⟨?_, hbase, hino, hgrant, fun held => ?_, ?_⟩
    · simp [leaseTxn, serviceTxn]
    · simp [leaseTxn, serviceTxn, entityKey, hino]
    · simp [leaseTxn, serviceTxn, hino]
  · exact .inl (by simp [KeepsLease, leaseTxn, serviceTxn, entityKey, hino, heq])

/-- Namespace operations touch leases only by creating a file, which grants the
first lease of its new inode. -/
lemma NamespaceTxn.lease_cases {regularLinks} (htxn : NamespaceTxn regularLinks txn) (inodeId) :
    KeepsLease inodeId txn ∨ ∃ lease, GrantTxn Read inodeId txn none lease := by
  cases htxn with
  | root namespaceId =>
    exact .inl (by simp [KeepsLease, rootTxn, serviceTxn, entityKey])
  | @child request operation parent inode delta time key more result hup
      hns hrt hhd hlk hmr =>
      rcases hmr with rfl | ⟨lease, rfl, hin, hep⟩
      · exact .inl (by simp [KeepsLease, childTxn, serviceTxn, putInode, putDentry, entityKey])
      · by_cases heq : inode.inodeId = inodeId
        · refine .inr ⟨lease, ?_, by simp, hin.trans heq, .first hep, fun held => ?_, ?_⟩
          · simp [childTxn, serviceTxn, pinLease, entityKey, hin, heq]
          · simp [childTxn, serviceTxn, putInode, putDentry, entityKey, hin, heq]
          · simp [childTxn, serviceTxn, List.filterMap_cons, hin, heq]
        · exact .inl (by simp [KeepsLease, childTxn, serviceTxn, putInode,
            putDentry, entityKey, hin, heq])
  | link hup hns hkn hln =>
    exact .inl (by simp [KeepsLease, linkTxn, serviceTxn, putInode, putDentry, entityKey])
  | remove hup hky hin hns hkn =>
    exact .inl (by simp [KeepsLease, removeTxn, serviceTxn, putInode, entityKey])
  | noop =>
    exact .inl (by simp [KeepsLease, renameNoopTxn, serviceTxn])
  | @rename request dentry source oldParent newParent oldKey newKey replaced
      renamedAt first second digest _ _ _ _ _ _ _ _ =>
      refine .inl fun mutation hm => ?_
      simp only [renameTxn, serviceTxn, List.mem_append, List.mem_cons,
        List.mem_map, List.not_mem_nil, or_false] at hm
      rcases hm with (((rfl | hrp) | rfl | rfl) | ⟨change, _, rfl⟩) | rfl
      · simp
      · cases replaced with
        | none => simp at hrp
        | some target =>
          simp only [List.mem_cons, List.not_mem_nil, or_false] at hrp
          rcases hrp with rfl | rfl <;> simp [putInode, entityKey]
      · simp [putDentry, entityKey]
      · simp [putInode, entityKey]
      · simp [ParentChange.put, putInode, entityKey]
      · simp

/-! ## What the collector does to a lease -/

section Collector

variable [Hash]

omit [Hash] in
lemma mem_snapshotOf : entity ∈ snapshotOf view ↔ ∃ key, view.entity? key = some entity := by
  simp only [snapshotOf, List.mem_map, OrderedMap.mem_values, State.entity?, Option.map_eq_some_iff]
  tauto

omit [Hash] in
lemma leaseIn_of_snapshot (hkeys : WellKeyed view) (hmem : .dfsWriteLease lease ∈ snapshotOf view) :
    leaseIn view lease.inodeId = some lease := by
  obtain ⟨key, hky⟩ := mem_snapshotOf.mp hmem
  have how : .dfsWriteLease lease.inodeId = key := hkeys key _ hky (.inr rfl)
  rw [leaseIn_eq_some, how]
  exact hky

omit [Hash] in
lemma entityKey_eq_lease (hkey : entityKey entity = .dfsWriteLease inodeId) :
    ∃ lease, entity = .dfsWriteLease lease ∧ lease.inodeId = inodeId := by
  cases entity <;> simp [entityKey] at hkey
  exact ⟨_, rfl, hkey⟩

lemma Collects.lease_cases (hkeys : WellKeyed view) (hcollects : Collects config Read view txn)
    (inodeId) :
    KeepsLease inodeId txn ∨ ∃ lease time, Read time ∧
      leaseIn view inodeId = some lease ∧ lease.expiresAtUnixMs ≤ time := by
  cases hcollects with
  | report hrd hpn =>
    refine .inl fun mutation hm => ?_
    simp only [gcTxn, reportMutations, List.mem_append, List.mem_map, List.mem_singleton] at hm
    rcases hm with (hrt | ⟨gc, _, rfl⟩) | rfl
    · obtain ⟨reference, rfl⟩ := mem_retirePuts hrt
      simp [entityKey]
    · simp [entityKey]
    · simp
  | @collect node session time later generation request inventory listed plan
      hrd hlt hid hls hpl =>
      by_cases hpa : .dfsWriteLease inodeId ∈ plan.keys
      · right
        subst hpl
        simp only [planCollection, List.mem_map, List.mem_filter] at hpa
        obtain ⟨entity, ⟨hen, hdd⟩, hky⟩ := hpa
        obtain ⟨lease, rfl, rfl⟩ := entityKey_eq_lease hky
        have hst : .dfsWriteLease lease ∈ snapshotOf view := by
          simpa using mem_listed hls hen
        exact ⟨lease, later, hlt, leaseIn_of_snapshot hkeys hst, by simpa [isDead] using hdd⟩
      · refine .inl fun mutation hm => ?_
        simp only [gcTxn, List.mem_append, List.mem_singleton] at hm
        rcases hm with (hco | rfl) | rfl
        · rcases mem_collectMutations hls hco with
            ⟨reference, rfl⟩ | ⟨chunk, rfl⟩ | ⟨key, hky, rfl⟩
          · simp [entityKey]
          · simp [entityKey]
          · rw [target?_deleteKey]
            rintro heq
            exact hpa (Option.some.inj heq ▸ hky)
        · simp [entityKey]
        · simp

end Collector

/-! ## The system -/

/-- The operations that grant, extend or remove leases, and the namespace
operations, one of which grants the first lease of a new file. -/
inductive LeaseOperation where
  | acquire (callerId ownerSessionId : String) (operationId : OperationId)
      (inodeId : InodeId) (leaseSeconds : ℕ)
  | renew (callerId ownerSessionId : String) (operationId : OperationId)
      (current : WriteLease) (leaseSeconds : ℕ)
  | collect (config : ServiceConfig) (node session : String) (completed : ℕ)
      (inventory : List ChunkObject) (tickets : ℕ → Ticket)
  | directory (operation : NamespaceOperation)

section System

variable [Hash] [RequestCodec]

def LeaseOperation.program : LeaseOperation → Service Unit
  | .acquire callerId ownerSessionId operationId inodeId leaseSeconds =>
    forget (acquireWriteLease callerId ownerSessionId operationId inodeId leaseSeconds)
  | .renew callerId ownerSessionId operationId current leaseSeconds =>
    forget (renewWriteLease callerId ownerSessionId operationId current leaseSeconds)
  | .collect config node session completed inventory tickets =>
    forget (collectGarbage config node session completed inventory tickets)
  | .directory operation => operation.program

def StartsLease (program : Service Unit) : Prop :=
  ∃ operation : LeaseOperation, program = operation.program

/-- Everything else that publishes leaves the leases alone. -/
structure KeepsLeases (state next : State) : Prop where
  lease_eq : ∀ inodeId, leaseIn next inodeId = leaseIn state inodeId
  keyed : WellKeyed state → WellKeyed next
  revision_le : state.revision ≤ next.revision

/-- What must hold of a state when a transaction commits on it: counters have
room, and a collection that deletes the lease of the inode finds it unexpired. -/
structure SparesLease (inodeId : InodeId) (clock : ℕ) (state : State)
    (txn : MetaTxn) : Prop where
  revision : state.revision + 1 < Word.size
  epoch : ∀ lease ∈ leaseIn state inodeId, lease.leaseEpoch + 1 < Word.size
  unexpired : txn.operation = .dfsCollectGarbage → ¬KeepsLease inodeId txn →
    ∀ lease ∈ leaseIn state inodeId, clock < lease.expiresAtUnixMs

instance (inodeId : InodeId) (txn : MetaTxn) : Decidable (KeepsLease inodeId txn) :=
  inferInstanceAs (Decidable (∀ mutation ∈ txn.mutations, _))

instance (inodeId : InodeId) (clock : ℕ) (state : State) (txn : MetaTxn) :
    Decidable (SparesLease inodeId clock state txn) :=
  decidable_of_iff (state.revision + 1 < Word.size ∧
      (∀ lease ∈ leaseIn state inodeId, lease.leaseEpoch + 1 < Word.size) ∧
      (txn.operation = .dfsCollectGarbage → ¬KeepsLease inodeId txn →
        ∀ lease ∈ leaseIn state inodeId, clock < lease.expiresAtUnixMs))
    ⟨fun ⟨hrevision, hepoch, hunexpired⟩ => ⟨hrevision, hepoch, hunexpired⟩,
      fun ⟨hrevision, hepoch, hunexpired⟩ => ⟨hrevision, hepoch, hunexpired⟩⟩

/-- The store decides a transaction, and commits it only if it spares the lease. -/
def DecidesSparing [Footprint] (inodeId : InodeId) (clock : ℕ) (state : State)
    (txn : MetaTxn) (next : State) (outcome : Result TxnOutcome) : Prop :=
  Decides clock state txn next outcome ∧ ∀ revision reply,
    outcome = .ok (.committed revision reply) → SparesLease inodeId clock state txn

variable {state next : State}

omit [Hash] [RequestCodec] in
lemma inode_eq_of_leaseIn (hkeys : WellKeyed view)
    (hlease : leaseIn view inodeId = some lease) : lease.inodeId = inodeId := by
  have h := hkeys _ _ (leaseIn_eq_some.mp hlease) (.inl rfl)
  simpa [entityKey] using h

lemma LeaseOperation.lease_cases {Seen} {operation : LeaseOperation}
    (hkeys : ∀ view, Seen view → WellKeyed view) (hoffer : operation.program.Offers Seen Read txn)
    (inodeId) :
    KeepsLease inodeId txn ∨ (∃ existing lease, GrantTxn Read inodeId txn existing lease) ∨
      (txn.operation = .dfsCollectGarbage ∧ ∃ view lease time, Seen view ∧
        Read time ∧ .storeRevisionEquals view.revision ∈ txn.conditions ∧
        leaseIn view inodeId = some lease ∧ lease.expiresAtUnixMs ≤ time) := by
  cases operation with
  | acquire callerId ownerSessionId operationId target leaseSeconds =>
    obtain ⟨view, time, requestedExpiry, hsn, hrd, hfr, rfl⟩ :=
      offers_acquireWriteLease (offers_forget.mp hoffer)
    have hbs : ∀ held ∈ leaseIn view target, held.inodeId = target :=
      fun held hh => inode_eq_of_leaseIn (hkeys view hsn) hh
    have hin : (grantLease (leaseBase (leaseIn view target) callerId
        ownerSessionId target) callerId ownerSessionId time
        requestedExpiry).inodeId = target := by
      cases hex : leaseIn view target with
      | none => rfl
      | some held => exact hbs held hex
    rcases leaseTxn_cases hbs hin (grants_grantLease hrd hfr) with
      hkp | hgt
    · exact .inl hkp
    · exact .inr (.inl ⟨_, _, hgt⟩)
  | renew callerId ownerSessionId operationId current leaseSeconds =>
    obtain ⟨view, stored, time, requestedExpiry, hsn, hrd, hls, hlv,
      rfl⟩ := offers_renewWriteLease (offers_forget.mp hoffer)
    have hin := inode_eq_of_leaseIn (hkeys view hsn) hls
    have hgs : Grants Read (some stored) (renewLease stored requestedExpiry) :=
      .extended hrd hlv (by simp [sameToken_eq_true, renewLease]) (le_max_left _ _)
    have hbs : ∀ held ∈ some stored, held.inodeId = current.inodeId := by
      rintro held ⟨⟩
      exact hin
    have hrn : (renewLease stored requestedExpiry).inodeId = current.inodeId := hin
    rcases leaseTxn_cases hbs hrn hgs with hkp | hgt
    · exact .inl hkp
    · exact .inr (.inl ⟨_, _, hgt⟩)
  | collect config node session completed inventory tickets =>
    obtain ⟨view, hsn, hcl⟩ := offers_collectGarbage (offers_forget.mp hoffer)
    rcases hcl.lease_cases (hkeys view hsn) inodeId with
      hkp | ⟨lease, time, hrd, hls, hep⟩
    · exact .inl hkp
    · refine .inr (.inr ⟨?_, view, lease, time, hsn, hrd, ?_, hls,
        hep⟩) <;> cases hcl <;> simp [gcTxn]
  | directory operation =>
    have htx : NamespaceTxn (fun _ => True) txn :=
      operation.offers hkeys (fun _ _ => trivial) hoffer
    rcases htx.lease_cases inodeId with hkp | ⟨lease, hgt⟩
    · exact .inl hkp
    · exact .inr (.inl ⟨none, lease, hgt⟩)

/-! ## Every run is fenced -/

/-- What holds of every reachable state: all published states are well keyed,
those of the current revision have the current lease, and the stored lease
accounts for every grant. -/
structure LeaseInvariant (inodeId : InodeId) (first : State) (clock : ℕ)
    (state : State) (seen : List State)
    (log : List (MetaTxn × Result TxnOutcome)) : Prop where
  keyed : ∀ view ∈ seen, WellKeyed view
  revision_le : ∀ view ∈ seen, view.revision ≤ state.revision
  current : ∀ view ∈ seen, view.revision = state.revision →
    leaseIn view inodeId = leaseIn state inodeId
  fenced : Fenced clock ((granted inodeId first log).map WriteLease.token)
    ((leaseIn state inodeId).map WriteLease.token)

variable {first : State} {clock : ℕ} {seen : List State}
  {log : List (MetaTxn × Result TxnOutcome)}

omit [Hash] [RequestCodec] in
lemma LeaseInvariant.keep {more} (hinv : LeaseInvariant inodeId first clock state seen log)
    (hkeys : WellKeyed next) (hrev : state.revision ≤ next.revision)
    (hlease : leaseIn next inodeId = leaseIn state inodeId)
    (hgrant : granted inodeId first more = granted inodeId first log) :
    LeaseInvariant inodeId first clock next (next :: seen) more where
  keyed := forall_mem_cons.mpr ⟨hkeys, hinv.keyed⟩
  revision_le := forall_mem_cons.mpr ⟨le_rfl, fun view h =>
    (hinv.revision_le view h).trans hrev⟩
  current := by
    refine forall_mem_cons.mpr ⟨fun _ => rfl, fun view h heq => ?_⟩
    have hle := hinv.revision_le view h
    rw [hinv.current view h (by omega), hlease]
  fenced := by
    rw [hgrant, hlease]
    exact hinv.fenced

omit [Hash] [RequestCodec] in
lemma granted_append (inodeId first log entry) : granted inodeId first (log ++ [entry]) =
      granted inodeId first log ++ grantedBy inodeId entry := by
  simp [granted]

omit [Hash] [RequestCodec] in
lemma grantedBy_of_rejected {outcome}
    (hout : ∀ revision reply, outcome ≠ .ok (.committed revision reply)) :
    grantedBy inodeId (txn, outcome) = [] := by
  unfold grantedBy
  split
  next heq =>
    cases heq
    exact absurd rfl (hout _ _)
  · rfl

omit [Hash] [RequestCodec] in
lemma Grants.issues (hgrant : Grants (· ≤ clock) existing lease)
    (hroom : ∀ held ∈ existing, held.leaseEpoch + 1 < size) :
    Issues clock (existing.map WriteLease.token) lease.token := by
  cases hgrant with
  | first hep => exact .first
  | extended hrd hlv htk hex =>
    obtain ⟨_, hn, hss, hep⟩ := sameToken_eq_true.mp htk
    refine .extended ?_ hep hex
    simp [WriteLease.token, hn, hss]
  | @takenOver held _ time hrd hei hep =>
    have hh := hroom held rfl
    refine .takenOver (hei.trans hrd) ?_
    show held.leaseEpoch < lease.leaseEpoch
    rw [hep, saturatingAdd]
    omega

omit [Hash] [RequestCodec] in
lemma GrantTxn.held (hgrant : GrantTxn Read inodeId txn existing lease)
    (hcom : Commits state txn next) :
    leaseIn state inodeId = existing ∧ leaseIn next inodeId = some lease := by
  constructor
  · cases existing with
    | none =>
      have hms := hcom.missing hgrant.pinned
      simp [leaseIn, hms]
    | some held =>
      have heq := hcom.entityEquals hgrant.pinned
      rw [leaseIn_eq_some, ← hgrant.base_inode held rfl]
      exact heq
  · rw [leaseIn_eq_some, hcom.entity?, hgrant.leaves]

omit [Hash] [RequestCodec] in
lemma KeepsLease.leaseIn_eq (hkeeps : KeepsLease inodeId txn) (hcom : Commits state txn next) :
    leaseIn next inodeId = leaseIn state inodeId := by
  unfold leaseIn
  rw [hcom.entity?, leavesAll_of_targets hkeeps]

/-- A committed transaction keeps the lease or grants one on top of the stored
lease; a collection finds no expired lease to delete. -/
lemma LeaseInvariant.keeps_or_grants {program}
    (hinv : LeaseInvariant inodeId first clock state seen log) (hstart : StartsLease program)
    (hoffer : program.Offers (· ∈ seen) (· ≤ clock) txn)
    (hspares : SparesLease inodeId clock state txn) (hcom : Commits state txn next) :
    KeepsLease inodeId txn ∨
      ∃ lease, GrantTxn (· ≤ clock) inodeId txn (leaseIn state inodeId) lease ∧
        leaseIn next inodeId = some lease := by
  obtain ⟨operation, rfl⟩ := hstart
  rcases operation.lease_cases hinv.keyed hoffer inodeId with hkeeps |
    ⟨existing, lease, hgrant⟩ |
    ⟨hcollect, view, lease, time, hseen, hread, hpin, hlease, hlate⟩
  · exact .inl hkeeps
  · obtain ⟨rfl, hnext⟩ := hgrant.held hcom
    exact .inr ⟨lease, hgrant, hnext⟩
  · by_cases hkeeps : KeepsLease inodeId txn
    · exact .inl hkeeps
    have heq := hcom.storeRevisionEquals hpin
    have hput : leaseIn state inodeId = some lease :=
      (hinv.current view hseen heq.symm).symm.trans hlease
    have hlive := hspares.unexpired hcollect hkeeps lease hput
    have hpast : time ≤ clock := hread
    omega

variable [Footprint]

lemma LeaseInvariant.decides (hinv : LeaseInvariant inodeId first clock state seen log)
    (hstate : state ∈ seen) (hstart : StartsLease program)
    (hoffer : program.Offers (· ∈ seen) (· ≤ clock) txn)
    (hdec : DecidesSparing inodeId clock state txn next outcome) :
    LeaseInvariant inodeId first clock next (next :: seen) (log ++ [(txn, outcome)]) := by
  obtain ⟨hdec, hspares⟩ := hdec
  have hkeys := (hinv.keyed state hstate).decides hdec
  rcases hdec.cases with ⟨hents, hrev, hout⟩ | ⟨revision, reply, rfl, hcom⟩
  · refine hinv.keep hkeys hrev.ge ?_ ?_
    · simp [leaseIn, State.entity?, hents]
    · rw [granted_append, grantedBy_of_rejected hout, append_nil]
  · replace hspares := hspares _ _ rfl
    have hadvance : next.revision = state.revision + 1 := by
      have hroom := hspares.revision
      rw [hcom.revision_eq, nextRevision, saturatingAdd]
      omega
    rcases hinv.keeps_or_grants hstart hoffer hspares hcom with
      hkeeps | ⟨lease, hgrant, hnext⟩
    · refine hinv.keep hkeys (by omega) (hkeeps.leaseIn_eq hcom) ?_
      rw [granted_append]
      simp [grantedBy, hkeeps.puts]
    · refine ⟨forall_mem_cons.mpr ⟨hkeys, hinv.keyed⟩,
        forall_mem_cons.mpr ⟨le_rfl, fun view hview =>
          (hinv.revision_le view hview).trans (by omega)⟩,
        forall_mem_cons.mpr ⟨fun _ => rfl, fun view hview heq => ?_⟩, ?_⟩
      · have hle := hinv.revision_le view hview
        omega
      · rw [hnext, granted_append, map_append]
        simp only [grantedBy, hgrant.puts, map_cons, map_nil, map_some]
        exact hinv.fenced.issue (hgrant.grants.issues hspares.epoch)

omit [Hash] [RequestCodec] [Footprint] in
lemma inode_eq_of_granted (hkeys : WellKeyed first) (hmem : lease ∈ granted inodeId first log) :
    lease.inodeId = inodeId := by
  rcases mem_append.mp hmem with hfs | hlg
  · exact inode_eq_of_leaseIn hkeys (mem_toList.mp hfs)
  · obtain ⟨entry, _, he⟩ := mem_flatMap.mp hlg
    unfold grantedBy at he
    split at he
    · obtain ⟨mutation, _, hpt⟩ := mem_filterMap.mp he
      unfold leasePut? at hpt
      split at hpt
      · split at hpt
        next hin =>
          cases hpt
          exact hin
        · cases hpt
      · cases hpt
    · simp at he

/-- The grant extends the stored lease for its holder, whose operation found
that lease unexpired. -/
def ExtendsStored (clock : ℕ) (stored : Option WriteLease) (lease : WriteLease) : Prop :=
  ∃ held ∈ stored, ∃ time ≤ clock, time < held.expiresAtUnixMs ∧
    lease.sameToken held = true ∧ held.expiresAtUnixMs ≤ lease.expiresAtUnixMs

omit [Hash] [RequestCodec] [Footprint] in
lemma LeaseInvariant.extends_or_fresh (hinv : LeaseInvariant inodeId first clock state seen log)
    (hgrant : Grants (· ≤ clock) (leaseIn state inodeId) lease)
    (hroom : ∀ held ∈ leaseIn state inodeId, held.leaseEpoch + 1 < size) :
    ExtendsStored clock (leaseIn state inodeId) lease ∨ ∀ earlier ∈ granted inodeId first log,
        earlier.leaseEpoch < lease.leaseEpoch := by
  have hfn := hinv.fenced
  have hf : (∀ held ∈ (leaseIn state inodeId).map WriteLease.token,
      held.epoch < lease.token.epoch) → ∀ earlier ∈ granted inodeId first log,
      earlier.leaseEpoch < lease.leaseEpoch := fun hgr earlier her =>
    hfn.fresh hgr earlier.token (mem_map_of_mem her)
  generalize leaseIn state inodeId = stored at hgrant hroom hf
  cases hgrant with
  | first hep => exact .inr (hf (by simp))
  | extended hrd hlv htk hex =>
    exact .inl ⟨_, rfl, _, hrd, hlv, htk, hex⟩
  | @takenOver held _ time hrd hei hep =>
    refine .inr (hf ?_)
    rintro token ⟨⟩
    have hh := hroom held rfl
    show held.leaseEpoch < lease.leaseEpoch
    rw [hep, saturatingAdd]
    omega

/-- In every run whose decisions spare the lease of an inode: any two unexpired
grants are one lease; a grant that is not an extension has a larger epoch than
every grant before it; and a superseded token is not accepted. -/
theorem leases_fenced (inodeId : InodeId)
    {first last : World State MetaTxn (Result TxnOutcome) Error}
    {labels : List (Option (MetaTxn × Result TxnOutcome))}
    (hrun : Run (Step StartsLease (DecidesSparing inodeId) KeepsLeases)
      first labels last)
    (hseen : first.seen = [first.state]) (htasks : first.tasks = [])
    (hkeys : WellKeyed first.state) : (∀ lease ∈ granted inodeId first.state labels.reduceOption,
      ∀ other ∈ granted inodeId first.state labels.reduceOption,
        last.clock < lease.expiresAtUnixMs → last.clock < other.expiresAtUnixMs →
        lease.sameToken other = true) ∧ (∀ txn outcome next,
      Step StartsLease (DecidesSparing inodeId) KeepsLeases last (some (txn, outcome)) next →
      ∀ lease ∈ grantedBy inodeId (txn, outcome),
        ExtendsStored last.clock (leaseIn last.state inodeId) lease ∨
        ∀ earlier ∈ granted inodeId first.state labels.reduceOption,
          earlier.leaseEpoch < lease.leaseEpoch) ∧
    (∀ token ∈ granted inodeId first.state labels.reduceOption,
      ∀ successor ∈ granted inodeId first.state labels.reduceOption,
        token.leaseEpoch < successor.leaseEpoch →
        ∀ (callerId : String) (Read : ℕ → Prop) (current : WriteLease),
          ¬ (validateWriteLease callerId inodeId token).Returns (· = last.state) Read current) := by
  have htraced : Traced StartsLease first := by
    refine ⟨by simp [hseen], by simp [htasks]⟩
  have hinv : LeaseInvariant inodeId first.state last.clock last.state last.seen
      labels.reduceOption := by
    refine run_safe (fun hnext hinv => ⟨hinv.keyed, hinv.revision_le,
      hinv.current, hinv.fenced.tick hnext⟩) (fun hstate henv hinv => ?_)
      (fun hstate hstarts hoffer happlies hinv =>
        hinv.decides hstate hstarts hoffer happlies) hrun htraced ?_
    · exact hinv.keep (henv.keyed (hinv.keyed _ hstate)) henv.revision_le
        (henv.lease_eq inodeId) rfl
    · rw [hseen]
      refine ⟨by simpa using hkeys, by simp, by simp, ?_⟩
      have hstart := Fenced.start first.clock ((leaseIn first.state inodeId).map WriteLease.token)
      simpa [granted, toList_map] using hstart
  refine ⟨fun lease hlease other hother hlive hotherLive => ?_,
    fun txn outcome next hstep lease hgranted => ?_,
    fun token htoken successor hsuccessor hless callerId Read current => ?_⟩
  · obtain ⟨hown, hepoch⟩ := hinv.fenced.unique (mem_map_of_mem hlease)
      (mem_map_of_mem hother) hlive hotherLive
    have hino := inode_eq_of_granted hkeys hlease
    have hotherInode := inode_eq_of_granted hkeys hother
    rw [sameToken_eq_true]
    exact ⟨hino.trans hotherInode.symm, congrArg Prod.fst hown, congrArg Prod.snd hown, hepoch⟩
  · obtain ⟨program, hstarts, hoffer, ⟨hdecides, hspares⟩, _⟩ :=
      hstep.offered (Run.traced hrun htraced)
    rcases hdecides.cases with ⟨_, _, houtcome⟩ | ⟨revision, reply, rfl, hcommits⟩
    · simp [grantedBy_of_rejected houtcome] at hgranted
    · replace hspares := hspares _ _ rfl
      rcases hinv.keeps_or_grants hstarts hoffer hspares hcommits with
        hkeeps | ⟨grant, hgrant, _⟩
      · simp [grantedBy, hkeeps.puts] at hgranted
      · obtain rfl : lease = grant := by
          simpa [grantedBy, hgrant.puts] using hgranted
        exact hinv.extends_or_fresh hgrant.grants hspares.epoch
  · rw [returns_validateWriteLease]
    rintro ⟨_, _, view, time, rfl, _, hput, htoken', _⟩
    have hsafe := hinv.fenced
    rw [hput] at hsafe
    have hbehind : token.token.epoch < current.token.epoch :=
      hsafe.superseded (mem_map_of_mem hsuccessor) hless
    obtain ⟨_, _, _, hepoch⟩ := sameToken_eq_true.mp htoken'
    exact absurd hepoch (Nat.ne_of_gt hbehind)

end System

/-! ## Collection and a file -/

/-- A store with one file and one registered node. -/
def fileStore : State := { State.default with
  revision := 1
  entities := (ExtTreeMap.empty.insert (.dfsInode "f") ⟨1, .dfsInode
      ⟨"default", "f", .regular, ⟨0o644, 0, 0, 1, 0, 0, 0⟩, none, none, [], 1⟩⟩
    ).insert (.nodeSession "n" "s") ⟨1, .nodeSession
      ⟨"n", "s", "", "", "", false, [], 1, 1000000⟩⟩ }

lemma fileStore_wellKeyed : WellKeyed fileStore := by
  intro key entity hen _
  simp only [fileStore, State.entity?, ExtTreeMap.getElem?_insert, map_eq_some_iff] at hen
  obtain ⟨versioned, hvr, rfl⟩ := hen
  split at hvr
  next hky =>
    cases hvr
    simpa [entityKey] using hky
  · split at hvr
    next hky =>
      cases hvr
      simpa [entityKey] using hky
    · simp at hvr

def acquireFile (operationId : OperationId) : LeaseOperation := .acquire "n" "s" operationId "f" 1

def collectOnce : LeaseOperation :=
  .collect ⟨⟨1, 1, 1, 1, .required⟩, .nodeReplicated, 0⟩ "n" "s" 0 [] fun _ => ⟨0, 0⟩

/-- The node acquires the lease of the file, lets it expire, reports to the
collector, and acquires the lease again. -/
def regrantSchedule : List (ℕ × Service Unit) :=
  letI := plainHash
  letI := plainRequests
  [(0, (acquireFile "op1").program), (2000, collectOnce.program),
    (2000, (acquireFile "op2").program)]

/-- The lease that expired at 1000 is granted anew at 2000 with the epoch it had
before, and the expired token is accepted again. -/
theorem expired_lease_regranted : letI := plainFootprint
    letI := plainHash
    letI := plainRequests
    ∃ labels last,
      Run (Step StartsLease Decides KeepsLeases) ⟨0, fileStore, [fileStore], []⟩ labels last ∧
      granted "f" fileStore labels.reduceOption =
        [⟨"f", "n", "s", 1, 1000⟩, ⟨"f", "n", "s", 1, 3000⟩] ∧ last.clock = 2000 ∧
      (validateWriteLease "n" "f" ⟨"f", "n", "s", 1, 1000⟩).Returns
        (· = last.state) (· = last.clock) ⟨"f", "n", "s", 1, 3000⟩ := by
  let _ := plainFootprint
  let _ := plainHash
  let _ := plainRequests
  obtain ⟨labels, last, hrun, hstate, hlog, hclock⟩ :=
    @schedule_run _ _ _ _ StartsLease Decides KeepsLeases
      (fun _ _ _ => true) decideAt
      (fun clock state txn _ => decides_decideAt clock state txn)
      regrantSchedule
      (by simp [regrantSchedule, StartsLease])
      ⟨0, fileStore, [fileStore], []⟩ (by simp [regrantSchedule])
      (by simp) (by decide +kernel)
  refine ⟨labels, last, hrun, ?_, hclock, ?_⟩
  · rw [hlog]
    decide +kernel
  · rw [returns_validateWriteLease, hclock]
    refine ⟨rfl, rfl, last.state, 2000, rfl, rfl, ?_, by decide, by decide⟩
    rw [hstate]
    decide +kernel

/-- Without a collection in between, the second grant has epoch 2 and the token
of the first one is not accepted. -/
theorem kept_lease_supersedes : letI := plainFootprint
    letI := plainHash
    letI := plainRequests
    ∃ labels last, Run (Step StartsLease (DecidesSparing "f") KeepsLeases)
        ⟨0, fileStore, [fileStore], []⟩ labels last ∧ granted "f" fileStore labels.reduceOption =
        [⟨"f", "n", "s", 1, 1000⟩, ⟨"f", "n", "s", 2, 3000⟩] ∧
      ∀ (Read : ℕ → Prop) (current : WriteLease),
        ¬ (validateWriteLease "n" "f" ⟨"f", "n", "s", 1, 1000⟩).Returns
          (· = last.state) Read current := by
  let _ := plainFootprint
  let _ := plainHash
  let _ := plainRequests
  obtain ⟨labels, last, hrun, _, hlog, _⟩ :=
    @schedule_run _ _ _ _ StartsLease (DecidesSparing "f") KeepsLeases
      (fun clock state txn => decide (SparesLease "f" clock state txn)) decideAt
      (fun clock state txn hspares => ⟨decides_decideAt clock state txn,
        fun _ _ _ => of_decide_eq_true hspares⟩)
      [(0, (acquireFile "op1").program), (2000, (acquireFile "op2").program)]
      (by simp [StartsLease])
      ⟨0, fileStore, [fileStore], []⟩ (by simp) (by simp) (by decide +kernel)
  have hgranted : granted "f" fileStore labels.reduceOption =
      [⟨"f", "n", "s", 1, 1000⟩, ⟨"f", "n", "s", 2, 3000⟩] := by
    rw [hlog]
    decide +kernel
  obtain ⟨_, _, hsuperseded⟩ := leases_fenced "f" hrun rfl rfl fileStore_wellKeyed
  refine ⟨labels, last, hrun, hgranted, fun Read current => ?_⟩
  refine hsuperseded _ ?_ ⟨"f", "n", "s", 2, 3000⟩ ?_ (by decide) "n" Read current
  · simp [hgranted]
  · simp [hgranted]

end AgentDx.Dfs
