import AgentDx.Lib.OrderedMap
import AgentDx.Store.Decision

/-!
# The authority charge is the total of what is stored

The incremental charge of the full authority, as long as deletions are charged
with cloned keys, is the sum over all stored entities and node epochs.  It is
therefore determined by the two maps, no matter in which order they were
changed.
-/

namespace AgentDx.Store

open Dfs Std Word OrderedMap Result

variable [footprint : Footprint]

/-- What one stored entity weighs. -/
def entityWeight (key : MetaKey) (versioned : VersionedEntity) : ℕ :=
  1024 + footprint.sizeMetaKey + footprint.sizeVersionedEntity +
    keyHeap key + footprint.entityHeap versioned.entity

/-- What the epoch of one node weighs. -/
def epochWeight (node : String) (_epoch : ℕ) : ℕ :=
  1024 + (footprint.sizeString + 8) + node.utf8ByteSize

/-- The weight of the whole authority. -/
def State.authorityWeight (state : State) : ℕ :=
  total entityWeight state.entities + total epochWeight state.nodeEpochs

lemma authorityCharge_exact (key) (versioned : VersionedEntity) :
    authorityCharge (.exact key) versioned.entity = charge (entityWeight key versioned) := rfl

lemma epochCharge_eq (node epoch) : epochCharge node = charge (epochWeight node epoch) := rfl

lemma State.heldCharge_exact (state : State) (key) :
    state.heldCharge (.exact key) = charge (share entityWeight state.entities key) := by
  unfold State.heldCharge share
  cases hheld : state.entities[key]? with
  | none => simp [Owned.exact, hheld, charge, Word.size]
  | some versioned =>
    simp only [Owned.exact, hheld, Option.elim_some]
    exact authorityCharge_exact key versioned

omit footprint in
lemma foldlM_charge_eq_ok {A : Type} (weight) {held : A → Result ℕ}
    (hheld : ∀ entry, held entry = charge (weight entry)) {entries : List A}
    (hone : first < Word.size) : entries.foldlM (fun bytes entry => do
        let amount ← held entry
        okOr (checkedAdd bytes amount) error) first = .ok last ↔
      last = first + (entries.map weight).sum ∧ last < Word.size := by
  obtain rfl : held = fun entry => charge (weight entry) := funext hheld
  induction entries generalizing first with
  | nil =>
    rw [List.foldlM_nil, pure_eq_ok, List.map_nil, List.sum_nil]
    omega
  | cons entry entries ih =>
    simp only [List.foldlM_cons, bind_eq_ok, charge_eq_ok,
      okOr_eq_ok, checkedAdd_eq_some, List.map_cons, List.sum_cons]
    constructor
    · rintro ⟨_, ⟨_, ⟨_, rfl⟩, hfits, rfl⟩, hrest⟩
      obtain ⟨hlast, hbound⟩ := (ih hfits).mp hrest
      exact ⟨by omega, hbound⟩
    · rintro ⟨hlast, hbound⟩
      have hfits : first + weight entry < Word.size := by omega
      refine ⟨first + weight entry, ⟨weight entry, ⟨by omega, rfl⟩, hfits, rfl⟩, ?_⟩
      exact (ih hfits).mpr ⟨by omega, hbound⟩

variable {state : State} {bytes : ℕ}

lemma State.authorityTotal_eq_ok :
    state.authorityTotal = .ok bytes ↔ bytes = state.authorityWeight ∧ bytes < Word.size := by
  have hzero : 0 < Word.size := by simp [Word.size]
  rw [State.authorityTotal, bind_eq_ok]
  constructor
  · rintro ⟨middle, hmid, hbytes⟩
    obtain ⟨hmid, hfits⟩ := (foldlM_charge_eq_ok
      (fun entry : MetaKey × VersionedEntity =>
        entityWeight entry.1 entry.2)
      (fun entry => authorityCharge_exact entry.1 entry.2) hzero).mp hmid
    obtain ⟨hbytes, hbound⟩ := (foldlM_charge_eq_ok
      (fun entry : String × ℕ => epochWeight entry.1 entry.2)
      (fun entry => epochCharge_eq entry.1 entry.2) hfits).mp hbytes
    refine ⟨?_, hbound⟩
    rw [hbytes, hmid, Nat.zero_add]
    rfl
  · rintro ⟨hbytes, hbound⟩
    have hweight : state.authorityWeight = total entityWeight state.entities +
        total epochWeight state.nodeEpochs := rfl
    have hfits : total entityWeight state.entities < Word.size := by omega
    refine ⟨total entityWeight state.entities, ?_, ?_⟩
    · exact (foldlM_charge_eq_ok (fun entry : MetaKey × VersionedEntity =>
        entityWeight entry.1 entry.2)
        (fun entry => authorityCharge_exact entry.1 entry.2) hzero).mpr
        ⟨(Nat.zero_add _).symm, hfits⟩
    · exact (foldlM_charge_eq_ok (fun entry : String × ℕ => epochWeight entry.1 entry.2)
        (fun entry => epochCharge_eq entry.1 entry.2) hfits).mpr
        ⟨hbytes.trans hweight, hbound⟩

/-- The derived charge is indexed and exact. -/
structure State.AuthorityExact (state : State) : Prop where
  indexed : state.authorityIndexed = true
  bytes_eq : state.authorityBytes = state.authorityWeight

variable {key : MetaKey}

/-- Under an exact charge a put succeeds exactly when the new total fits. -/
lemma State.AuthorityExact.putBytes_eq_ok (hexact : state.AuthorityExact) :
    state.putBytes key versioned.entity = .ok bytes ↔
      share entityWeight state.entities key < Word.size ∧ entityWeight key versioned < Word.size ∧
      total entityWeight (state.entities.insert key versioned) +
        total epochWeight state.nodeEpochs < Word.size ∧
      bytes = total entityWeight (state.entities.insert key versioned) +
        total epochWeight state.nodeEpochs := by
  have hadd := total_insert entityWeight state.entities key versioned
  have hshare := share_le_total entityWeight state.entities key
  have hbytes := hexact.bytes_eq
  unfold State.authorityWeight at hbytes
  simp only [State.putBytes, hexact.indexed, if_true, bind_eq_ok,
    State.heldCharge_exact, authorityCharge_exact, charge_eq_ok, okOr_eq_ok, checkedReplace_eq_some]
  constructor
  · rintro ⟨old, ⟨hold, rfl⟩, new, ⟨hnew, rfl⟩, hle, hfits, rfl⟩
    refine ⟨hold, hnew, ?_, ?_⟩ <;> omega
  · rintro ⟨hold, hnew, hfits, rfl⟩
    refine ⟨_, ⟨hold, rfl⟩, _, ⟨hnew, rfl⟩, ?_, ?_, ?_⟩ <;> omega

lemma State.AuthorityExact.deleteBytes_eq_ok (hexact : state.AuthorityExact) :
    state.deleteBytes (.exact key) = .ok bytes ↔ share entityWeight state.entities key < Word.size ∧
      bytes = total entityWeight (state.entities.erase key) +
        total epochWeight state.nodeEpochs := by
  have herase := total_erase entityWeight state.entities key
  have hbytes := hexact.bytes_eq
  unfold State.authorityWeight at hbytes
  simp only [State.deleteBytes, hexact.indexed, if_true, bind_eq_ok,
    State.heldCharge_exact, charge_eq_ok, okOr_eq_ok, checkedSub_eq_some]
  constructor
  · rintro ⟨old, ⟨hold, rfl⟩, hle, rfl⟩
    exact ⟨hold, by omega⟩
  · rintro ⟨hold, rfl⟩
    exact ⟨_, ⟨hold, rfl⟩, by omega, by omega⟩

lemma total_epochWeight_insert (epochs : ExtTreeMap String ℕ) (node epoch) :
    total epochWeight (epochs.insert node epoch) = total epochWeight epochs +
        if epochs.contains node then 0 else epochWeight node epoch := by
  have hadd := total_insert epochWeight epochs node epoch
  cases hepoch : epochs[node]? with
  | none =>
    have hhas : epochs.contains node = false := by
      rw [← ExtTreeMap.isSome_getElem?_eq_contains, hepoch]
      rfl
    simp only [share, hepoch, Option.elim_none] at hadd
    simp only [hhas, Bool.false_eq_true, if_false]
    omega
  | some old =>
    have hhas : epochs.contains node = true := by
      rw [← ExtTreeMap.isSome_getElem?_eq_contains, hepoch]
      rfl
    simp only [share, hepoch, Option.elim_some] at hadd
    simp only [hhas, if_true]
    have heq : epochWeight node old = epochWeight node epoch := rfl
    omega

variable {node : String}

lemma State.AuthorityExact.epochBytes_eq_ok (epoch) (hexact : state.AuthorityExact) :
    state.epochBytes node = .ok bytes ↔ (state.nodeEpochs.contains node = true ∨
        (epochWeight node epoch < Word.size ∧ total entityWeight state.entities +
            total epochWeight (state.nodeEpochs.insert node epoch) < Word.size)) ∧
      bytes = total entityWeight state.entities +
        total epochWeight (state.nodeEpochs.insert node epoch) := by
  have hadd := total_epochWeight_insert state.nodeEpochs node epoch
  have hbytes := hexact.bytes_eq
  unfold State.authorityWeight at hbytes
  unfold State.epochBytes
  rw [hexact.indexed, Bool.true_and]
  cases hhas : state.nodeEpochs.contains node with
  | true =>
    simp only [hhas, if_true] at hadd
    simp only [Bool.not_true, Bool.false_eq_true, if_false, true_or, true_and, Except.ok.injEq]
    constructor <;> intro heq <;> omega
  | false =>
    simp only [hhas, Bool.false_eq_true, if_false] at hadd
    simp only [Bool.not_false, if_true, Bool.false_eq_true, false_or,
      bind_eq_ok, epochCharge_eq node epoch, charge_eq_ok, okOr_eq_ok, checkedAdd_eq_some]
    constructor
    · rintro ⟨held, ⟨hheld, rfl⟩, hfits, rfl⟩
      exact ⟨⟨hheld, by omega⟩, by omega⟩
    · rintro ⟨⟨hheld, hfits⟩, rfl⟩
      exact ⟨_, ⟨hheld, rfl⟩, by omega, by omega⟩

/-! ## What a state change does -/

/-- The state after its authority moved on. -/
def State.withAuthority (state : State)
    (entities : ExtTreeMap MetaKey VersionedEntity) (authorityBytes : ℕ)
    (events : List (Owned WatchEvent)) : State :=
  { state with
    entities := entities, authorityBytes := authorityBytes, events := events }

variable {next : State}

lemma State.putAuthority_eq_ok :
    state.putAuthority key value = .ok next ↔ ∃ bytes, state.putBytes key value.entity = .ok bytes ∧
        next = { state with
          entities := state.entities.insert key value
          authorityBytes := bytes } := by
  simp only [State.putAuthority, bind_eq_ok, pure_eq_ok, @eq_comm _ next]

lemma State.deleteAuthority_eq_ok {key} :
    state.deleteAuthority key = .ok next ↔ ∃ bytes, state.deleteBytes key = .ok bytes ∧
        next = { state with
          entities := state.entities.erase key.value
          authorityBytes := bytes } := by
  simp only [State.deleteAuthority, bind_eq_ok, pure_eq_ok, @eq_comm _ next]

lemma State.setEpoch_eq_ok :
    state.setEpoch node epoch = .ok next ↔ ∃ bytes, state.epochBytes node = .ok bytes ∧
        next = { state with
          nodeEpochs := state.nodeEpochs.insert node epoch
          authorityBytes := bytes } := by
  simp only [State.setEpoch, bind_eq_ok, pure_eq_ok, @eq_comm _ next]

lemma State.applyMutation_cases {revision eventIndex nextIndex}
    (happ : State.applyMutation revision (before, eventIndex) mutation = .ok (after, nextIndex)) :
    (∃ entity bytes, mutation = .put entity ∧
      before.putBytes (entityKey entity.value) entity.value = .ok bytes ∧
      after = before.withAuthority
        (before.entities.insert (entityKey entity.value) ⟨revision, entity.value⟩) bytes
        (before.events ++ [⟨⟨revision, eventIndex, entityKey entity.value,
          .put entity.value⟩, entity.spare⟩]) ∧ nextIndex = eventIndex + 1) ∨
    (∃ key bytes, mutation = .delete key ∧ before.deleteBytes key = .ok bytes ∧
      after = before.withAuthority (before.entities.erase key.value) bytes
        (before.events ++ [⟨⟨revision, eventIndex, key.value, .delete⟩, key.spare⟩]) ∧
      nextIndex = eventIndex + 1) ∨
    (∃ owned, mutation = .recordRequestOutcome owned ∧ after = { before with
        requests := before.requests.insert owned.outcome.request owned } ∧
      nextIndex = eventIndex) := by
  cases mutation with
  | put entity =>
    obtain ⟨stored, hput, hpost⟩ := bind_eq_ok.mp happ
    obtain ⟨bytes, hbytes, rfl⟩ := State.putAuthority_eq_ok.mp hput
    cases hpost
    exact .inl ⟨entity, bytes, rfl, hbytes, rfl, rfl⟩
  | delete key =>
    obtain ⟨stored, hdelete, hpost⟩ := bind_eq_ok.mp happ
    obtain ⟨bytes, hbytes, rfl⟩ := State.deleteAuthority_eq_ok.mp hdelete
    cases hpost
    exact .inr (.inl ⟨key, bytes, rfl, hbytes, rfl, rfl⟩)
  | recordRequestOutcome owned =>
    cases happ
    exact .inr (.inr ⟨owned, rfl, rfl, rfl⟩)

/-! ## The state changes keep the charge exact -/

lemma State.AuthorityExact.putAuthority (hexact : state.AuthorityExact)
    (hput : state.putAuthority key value = .ok next) : next.AuthorityExact := by
  obtain ⟨bytes, hbytes, rfl⟩ := State.putAuthority_eq_ok.mp hput
  exact ⟨hexact.indexed, (hexact.putBytes_eq_ok.mp hbytes).2.2.2⟩

lemma State.AuthorityExact.deleteAuthority (hexact : state.AuthorityExact)
    (hdelete : state.deleteAuthority (.exact key) = .ok next) : next.AuthorityExact := by
  obtain ⟨bytes, hbytes, rfl⟩ := State.deleteAuthority_eq_ok.mp hdelete
  exact ⟨hexact.indexed, (hexact.deleteBytes_eq_ok.mp hbytes).2⟩

lemma State.AuthorityExact.setEpoch (hexact : state.AuthorityExact)
    (hset : state.setEpoch node epoch = .ok next) : next.AuthorityExact := by
  obtain ⟨bytes, hbytes, rfl⟩ := State.setEpoch_eq_ok.mp hset
  exact ⟨hexact.indexed, ((hexact.epochBytes_eq_ok epoch).mp hbytes).2⟩

end AgentDx.Store
