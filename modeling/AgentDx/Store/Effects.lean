import AgentDx.Store.Replay

/-!
# The effect of a committed transaction

A client of the store observes entities and conditions, never the accounting.
For it, committing a transaction is a function of each key: the conditions held
in the state that decided it, the revision moved on by one, and what a key holds
afterwards is what its last mutation left there.
-/

namespace AgentDx.Store

open Dfs Std Word Result

/-! ## Mutations, key by key -/

/-- What a mutation leaves under one key. -/
def TxnMutation.effect (revision : ℕ) (key : MetaKey)
    (held : Option VersionedEntity) : TxnMutation → Option VersionedEntity
  | .put entity =>
    if entityKey entity.value = key then
      some ⟨revision, entity.value⟩
    else
      held
  | .delete deleted => if deleted.value = key then none else held
  | .recordRequestOutcome _ => held

/-- The same for the entity alone. -/
def TxnMutation.leaves (key : MetaKey) (held : Option MetaEntity) : TxnMutation → Option MetaEntity
  | .put entity => if entityKey entity.value = key then some entity.value else held
  | .delete deleted => if deleted.value = key then none else held
  | .recordRequestOutcome _ => held

/-- The key a mutation writes or deletes. -/
def TxnMutation.target? : TxnMutation → Option MetaKey
  | .put entity => some (entityKey entity.value)
  | .delete deleted => some deleted.value
  | .recordRequestOutcome _ => none

lemma TxnMutation.map_effect (revision key held) (mutation : TxnMutation) :
    (mutation.effect revision key held).map VersionedEntity.entity =
      mutation.leaves key (held.map VersionedEntity.entity) := by
  cases mutation with
  | put entity | delete deleted => simp only [effect, leaves]; split <;> rfl
  | recordRequestOutcome owned => rfl

variable {mutation : TxnMutation} {key : MetaKey}

lemma TxnMutation.leaves_of_target (hother : mutation.target? ≠ some key) (held) :
    mutation.leaves key held = held := by
  cases mutation with
  | put entity =>
    have hne : entityKey entity.value ≠ key := by simpa [target?] using hother
    simp [leaves, hne]
  | delete deleted =>
    have hne : deleted.value ≠ key := by simpa [target?] using hother
    simp [leaves, hne]
  | recordRequestOutcome owned => rfl

lemma TxnMutation.effect_of_target (hother : mutation.target? ≠ some key) (revision held) :
    mutation.effect revision key held = held := by
  cases mutation with
  | put entity =>
    have hne : entityKey entity.value ≠ key := by simpa [target?] using hother
    simp [effect, hne]
  | delete deleted =>
    have hne : deleted.value ≠ key := by simpa [target?] using hother
    simp [effect, hne]
  | recordRequestOutcome owned => rfl

/-- What a list of mutations leaves under a key. -/
def leavesAll (mutations : List TxnMutation) (key : MetaKey)
    (held : Option MetaEntity) : Option MetaEntity :=
  mutations.foldl (TxnMutation.leaves key) held

def effectAll (mutations : List TxnMutation) (revision : ℕ) (key : MetaKey)
    (held : Option VersionedEntity) : Option VersionedEntity :=
  mutations.foldl (TxnMutation.effect revision key) held

@[simp]
lemma leavesAll_nil (key held) : leavesAll [] key held = held :=
  rfl

@[simp]
lemma leavesAll_cons (mutation mutations key held) : leavesAll (mutation :: mutations) key held =
      leavesAll mutations key (mutation.leaves key held) :=
  rfl

@[simp]
lemma leavesAll_append (first second key held) :
    leavesAll (first ++ second) key held = leavesAll second key (leavesAll first key held) :=
  List.foldl_append

lemma map_effectAll (mutations revision key held) :
    (effectAll mutations revision key held).map VersionedEntity.entity =
      leavesAll mutations key (held.map VersionedEntity.entity) := by
  induction mutations generalizing held with
  | nil => rfl
  | cons mutation mutations ih =>
    calc (effectAll (mutation :: mutations) revision key held).map
          VersionedEntity.entity
        = leavesAll mutations key ((mutation.effect revision key held).map
            VersionedEntity.entity) := ih _
      _ = leavesAll (mutation :: mutations) key (held.map VersionedEntity.entity) := by
          rw [TxnMutation.map_effect, leavesAll_cons]

variable {mutations : List TxnMutation}

lemma leavesAll_of_targets (hothers : ∀ mutation ∈ mutations, mutation.target? ≠ some key) (held) :
    leavesAll mutations key held = held := by
  induction mutations generalizing held with
  | nil => rfl
  | cons mutation mutations ih =>
    rw [List.forall_mem_cons] at hothers
    rw [leavesAll_cons, TxnMutation.leaves_of_target hothers.1, ih hothers.2]

lemma effectAll_of_targets (hothers : ∀ mutation ∈ mutations, mutation.target? ≠ some key)
    (revision held) : effectAll mutations revision key held = held := by
  induction mutations generalizing held with
  | nil => rfl
  | cons mutation mutations ih =>
    rw [List.forall_mem_cons] at hothers
    show effectAll mutations revision key (mutation.effect revision key held) = _
    rw [TxnMutation.effect_of_target hothers.1, ih hothers.2]

lemma leavesAll_eq_some (hexit : leavesAll mutations key held = some entity) :
    held = some entity ∨ ∃ owned, .put owned ∈ mutations ∧ owned.value = entity ∧
        entityKey entity = key := by
  induction mutations generalizing held with
  | nil => exact .inl hexit
  | cons mutation mutations ih =>
    rcases ih hexit with hheld | ⟨owned, hmem, hrest⟩
    · cases mutation with
      | put owned =>
        simp only [TxnMutation.leaves] at hheld
        split at hheld
        next hkey =>
          cases hheld
          exact .inr ⟨owned, List.mem_cons_self, rfl, hkey⟩
        · exact .inl hheld
      | delete deleted =>
        simp only [TxnMutation.leaves] at hheld
        split at hheld
        · cases hheld
        · exact .inl hheld
      | recordRequestOutcome owned => exact .inl hheld
    · exact .inr ⟨owned, List.mem_cons_of_mem _ hmem, hrest⟩

/-! ## Committed transactions -/

variable {revision : ℕ}

section Commit

variable [Footprint]

lemma State.applyMutation_effect
    (happ : State.applyMutation revision before mutation = .ok after) :
    after.1.revision = before.1.revision ∧ ∀ key : MetaKey, after.1.entities[key]? =
        mutation.effect revision key before.1.entities[key]? := by
  cases mutation with
  | put entity =>
    obtain ⟨next, hput, happ⟩ := bind_eq_ok.mp happ
    obtain ⟨bytes, _, hput⟩ := bind_eq_ok.mp hput
    cases hput
    cases happ
    refine ⟨rfl, fun key => ?_⟩
    simp [TxnMutation.effect, ExtTreeMap.getElem?_insert]
  | delete deleted =>
    obtain ⟨next, hdelete, happ⟩ := bind_eq_ok.mp happ
    obtain ⟨bytes, _, hdelete⟩ := bind_eq_ok.mp hdelete
    cases hdelete
    cases happ
    refine ⟨rfl, fun key => ?_⟩
    simp [TxnMutation.effect, ExtTreeMap.getElem?_erase]
  | recordRequestOutcome owned =>
    cases happ
    exact ⟨rfl, fun key => rfl⟩

lemma State.applyMutations_effect
    (happ : mutations.foldlM (State.applyMutation revision) before = .ok after) :
    after.1.revision = before.1.revision ∧ ∀ key : MetaKey, after.1.entities[key]? =
        effectAll mutations revision key before.1.entities[key]? := by
  induction mutations generalizing before with
  | nil =>
    cases happ
    exact ⟨rfl, fun key => rfl⟩
  | cons mutation mutations ih =>
    rw [List.foldlM_cons] at happ
    obtain ⟨middle, hhead, htail⟩ := bind_eq_ok.mp happ
    obtain ⟨hrev, hact⟩ := State.applyMutation_effect hhead
    obtain ⟨hrevs, heffects⟩ := ih htail
    refine ⟨hrevs.trans hrev, fun key => ?_⟩
    rw [heffects key, hact key]
    rfl

/-- A committed transaction, as a client observes it. -/
structure Commits (state : State) (txn : MetaTxn) (next : State) : Prop where
  matched : ∀ condition ∈ txn.conditions, ∃ now, conditionMatches state now condition = true
  revision_eq : next.revision = nextRevision state.revision
  effect : ∀ key : MetaKey, next.entities[key]? =
    effectAll txn.mutations next.revision key state.entities[key]?

lemma State.applyTxn_commits
    (happ : state.applyTxn clock txn = .ok (applied, .committed revision reply)) :
    Commits state txn applied := by
  obtain ⟨_, _, hmatch, _, rfl, lastIndex, hfold⟩ := State.applyTxn_committed happ
  obtain ⟨hrev, hact⟩ := State.applyMutations_effect hfold
  refine ⟨fun condition hcond => ?_, hrev, fun key => ?_⟩
  · obtain ⟨position, hpos⟩ := conditionMatches_of_conditionsMatch hmatch hcond
    exact ⟨clock position, hpos⟩
  · rw [hact key, hrev]

end Commit

variable {state next : State} {txn : MetaTxn}

variable (hcom : Commits state txn next)

include hcom

lemma Commits.entity? (key) :
    next.entity? key = leavesAll txn.mutations key (state.entity? key) := by
  rw [State.entity?, hcom.effect key, map_effectAll]
  rfl

lemma Commits.frame (hothers : ∀ mutation ∈ txn.mutations, mutation.target? ≠ some key) :
    next.entities[key]? = state.entities[key]? := by
  rw [hcom.effect key, effectAll_of_targets hothers]

lemma Commits.missing (hcond : .missing key ∈ txn.conditions) : state.entity? key = none := by
  obtain ⟨_, hmatch⟩ := hcom.matched _ hcond
  have hgone : key ∉ state.entities := by
    intro hmem
    rw [conditionMatches, ExtTreeMap.contains_iff_mem.mpr hmem] at hmatch
    cases hmatch
  simpa [State.entity?] using hgone

lemma Commits.entityEquals (hcond : .entityEquals entity ∈ txn.conditions) :
    state.entity? (entityKey entity) = some entity := by
  obtain ⟨_, hmatch⟩ := hcom.matched _ hcond
  simpa [conditionMatches] using hmatch

lemma Commits.storeRevisionEquals (hcond : .storeRevisionEquals revision ∈ txn.conditions) :
    state.revision = revision := by
  obtain ⟨_, hmatch⟩ := hcom.matched _ hcond
  simpa [conditionMatches] using hmatch

end AgentDx.Store
