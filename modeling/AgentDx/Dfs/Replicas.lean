import AgentDx.Lib.Greedy
import AgentDx.Store.KeyCodec
import AgentDx.Dfs.Service

/-!
# Groups of replicas

A chunk is placed on a group of storage targets, one for each node.  The groups
come from one greedy choice, started at every place of the list of targets.
-/

namespace AgentDx.Dfs

open Store Greedy Result ReplicaTarget List

def ReplicaTarget.domain (target : ReplicaTarget) : String := target.device.failureDomain

def preferredReplicaTarget (session : NodeSession) : Option ReplicaTarget :=
  let key := fun device : StorageDeviceDescriptor =>
    toLex (device.deviceId, toLex (device.deviceEpoch, device.failureDomain))
  (session.storageDevices.insertionSort fun left right => key left ≤ key right).head?.map
    fun device => ⟨session.nodeId, session.leaseEpoch, session.dataAddr, device⟩

/-- The candidate targets: one for each node, in the order of their keys. -/
def replicaTargets (sessions : List NodeSession) : List ReplicaTarget :=
  let key := fun target : ReplicaTarget => toLex (target.nodeId, toLex (target.nodeEpoch,
    toLex (target.device.deviceId, target.device.deviceEpoch)))
  ((sessions.filterMap preferredReplicaTarget).insertionSort
    fun left right => key left ≤ key right).destutter fun left right => left.nodeId ≠ right.nodeId

/-! ## The name of a group -/

section

variable (hash : UInt64)

def writeBytes (bytes : Bytes) : UInt64 :=
  bytes.foldl (fun hash byte => (hash ^^^ byte.toUInt64) * 0x100000001b3) hash

def writeStr (value : String) : UInt64 := writeBytes (writeBytes hash (asBytes value)) [0xff]

def writeU64 (value : ℕ) : UInt64 :=
  writeBytes hash ((List.range 8).map fun place => UInt8.ofNat (value / 256 ^ place))

end

section

variable (replication : ReplicationConfig) (targets : List ReplicaTarget)

def placementHash : ℕ :=
  let policy := match replication.localCopy with
    | .required => 1
    | .preferred => 2
    | .notRequired => 3
  let hash := [replication.desiredCopies, replication.syncRequiredCopies,
    replication.minDistinctNodes, replication.minDistinctFailureDomains, policy].foldl writeU64
      0xcbf29ce484222325
  let hash := targets.foldl (fun hash target =>
    let hash := writeStr (writeU64 (writeStr hash target.nodeId) target.nodeEpoch)
      target.dataEndpoint
    writeStr (writeU64 (writeStr hash target.device.deviceId) target.device.deviceEpoch)
      target.domain) hash
  if hash = 0 then 1 else hash.toNat

/-! ## The groups -/

/-- The configured minima. -/
def ReplicationConfig.Meets : Prop :=
  replication.syncRequiredCopies ≤ targets.length ∧
    replication.minDistinctNodes ≤ (targets.map nodeId).toFinset.card ∧
    replication.minDistinctFailureDomains ≤ (targets.map domain).toFinset.card

instance : Decidable (replication.Meets targets) := inferInstanceAs (Decidable (_ ∧ _))

/-- The sets of nodes and domains of the source are those of the selection. -/
def buildReplicaGroup (head : Option ReplicaTarget) (candidates : List ReplicaTarget)
    (targetCount seed : ℕ) : Option ReplicaGroup :=
  let selected := select nodeId domain targetCount head.toList (candidates.rotate seed)
  if replication.Meets selected then
    let placementEpoch := placementHash replication selected
    some ⟨"group:" ++ String.ofList ((List.range 16).map fun place =>
      Nat.digitChar (placementEpoch / 16 ^ (15 - place) % 16)), placementEpoch, selected⟩
  else
    none

def requiredTargets : ℕ :=
  max (max replication.syncRequiredCopies replication.minDistinctNodes)
    replication.minDistinctFailureDomains

/-- What a group is filled up from. -/
def candidates : Option ReplicaTarget → List ReplicaTarget
  | some head => targets.filter fun target => target.nodeId ≠ head.nodeId
  | none => targets

/-- The loop over the seeds; a group of the caller alone needs one round too. -/
def rotatedGroups (head : Option ReplicaTarget) (targetCount : ℕ) : List ReplicaGroup :=
  let candidates := candidates targets head
  (List.range (max candidates.length head.toList.length)).filterMap
    (buildReplicaGroup replication head candidates targetCount)

def buildReplicaGroups (callerId : String) (sessions : List NodeSession) :
    Result (List ReplicaGroup) := do
  let targets := replicaTargets sessions
  let caller := targets.find? fun target => target.nodeId = callerId
  ensure (decide (replication.localCopy ≠ .required) || caller.isSome)
    (conflict "DFS placement requires a caller-local storage target for local-copy=required")
  ensure (decide (requiredTargets replication ≤ targets.length))
    (conflict "DFS placement has too few live storage nodes for the configured policy")
  let targetCount := min replication.desiredCopies targets.length
  ensure (decide (requiredTargets replication ≤ targetCount))
    (conflict "DFS placement cannot satisfy sync, node or failure-domain minima")
  let head := if replication.localCopy = .notRequired then none else caller
  let groups := ((rotatedGroups replication targets head targetCount).insertionSort
    fun left right : ReplicaGroup => left.id ≤ right.id).destutter
      fun left right : ReplicaGroup => left.id ≠ right.id
  ensure (!groups.isEmpty)
    (conflict "DFS placement could not build a replica group satisfying the configured policy")
  return groups

end

/-! ## What is selected -/

variable {replication : ReplicationConfig} {targets other : List ReplicaTarget}
  {head : Option ReplicaTarget} {count : ℕ}

lemma replicaTargets_nodup (sessions : List NodeSession) :
    ((replicaTargets sessions).map nodeId).Nodup := by
  unfold replicaTargets
  extract_lets key
  set sorted := (sessions.filterMap preferredReplicaTarget).insertionSort
    fun left right => key left ≤ key right
  have hsort : sorted.Pairwise fun left right => left.nodeId ≤ right.nodeId :=
    (pairwise_insertionSort (fun left right => key left ≤ key right) _).imp
      fun hle => (Prod.Lex.le_iff'.mp hle).1
  have hnames : (sorted.destutter fun left right : ReplicaTarget => left.nodeId ≠ right.nodeId).map
      nodeId = (sorted.map nodeId).destutter (· ≠ ·) :=
    map_destutter fun _ _ _ _ => Iff.rfl
  rw [hnames, (pairwise_map.mpr hsort).destutter_eq_dedup]
  exact nodup_dedup _

section

variable (huniq : (targets.map nodeId).Nodup) (hhead : ∀ target ∈ head, target ∈ targets)
  (hsome : 0 < count) (hnum : count ≤ targets.length)

include huniq hhead

lemma mem_candidates (target : ReplicaTarget) :
    target ∈ head.toList ++ candidates targets head ↔ target ∈ targets := by
  cases head with
  | none => simp [candidates]
  | some head =>
    have hin := hhead head rfl
    have hown : target ∈ targets → target.nodeId = head.nodeId → target = head :=
      fun hmem hnode => inj_on_of_nodup_map huniq hmem hin hnode
    simp only [candidates, Option.toList_some, mem_append, mem_singleton,
      mem_filter, decide_eq_true_eq]
    grind

include hsome hnum

lemma selected_optimal (seed : ℕ) : Optimal nodeId domain count head.toList targets
    (select nodeId domain count head.toList ((candidates targets head).rotate seed)) := by
  have hsingle : ∀ {A : Type} (view : ReplicaTarget → A), (head.toList.map view).Nodup := by
    intro A view
    cases head <;> simp
  refine select_optimal (fun target => ?_) huniq hnum (hsingle _) (hsingle _) ?_
  · rw [← mem_candidates huniq hhead, mem_append, mem_append, mem_rotate]
  · cases head
    · exact hsome.le
    · exact hsome

/-- Some rotation is a group as soon as any choice of the size meets the minima. -/
lemma rotatedGroups_ne_nil (hminima : requiredTargets replication ≤ count)
    (hother : other ⊆ targets)
    (hlen : other.length = count) (hmeets : replication.Meets other) :
    rotatedGroups replication targets head count ≠ [] := by
  have hsel := selected_optimal huniq hhead hsome hnum 0
  have hbuilt : replication.Meets
      (select nodeId domain count head.toList ((candidates targets head).rotate 0)) := by
    refine ⟨?_, ?_, hmeets.2.2.trans (hsel.domains other hother hlen.le)⟩
    · rw [hsel.length]
      exact ((le_max_left _ _).trans (le_max_left _ _)).trans hminima
    · rw [toFinset_card_of_nodup hsel.nodes, length_map, hsel.length]
      exact ((le_max_right _ _).trans (le_max_left _ _)).trans hminima
  have hround : 0 < max (candidates targets head).length head.toList.length := by
    cases head with
    | none => exact lt_max_of_lt_left (hsome.trans_le hnum)
    | some head => exact lt_max_of_lt_right zero_lt_one
  intro hnil
  have hnone := filterMap_eq_nil_iff.mp hnil 0 (mem_range.mpr hround)
  rw [buildReplicaGroup, if_pos hbuilt] at hnone
  cases hnone

end

lemma buildReplicaGroup_eq_some {group : ReplicaGroup} {items : List ReplicaTarget}
    (hbuild : buildReplicaGroup replication head items count seed = some group) :
    group.targets = select nodeId domain count head.toList (items.rotate seed) ∧
      replication.Meets group.targets := by
  unfold buildReplicaGroup at hbuild
  extract_lets selected epoch at hbuild
  split at hbuild
  next hmeets =>
    cases hbuild
    exact ⟨rfl, hmeets⟩
  next => cases hbuild

lemma required_le (hmeets : replication.Meets targets) :
    requiredTargets replication ≤ targets.length := by
  have hnodes := (targets.map nodeId).toFinset_card_le
  have hdomains := (targets.map domain).toFinset_card_le
  rw [length_map] at hnodes hdomains
  exact max_le (max_le hmeets.1 (hmeets.2.1.trans hnodes)) (hmeets.2.2.trans hdomains)

/-- Every group meets the minima, is as large as asked for, starts with the caller
unless the policy has no need of it, and reaches as many failure domains as any
choice of its size.  No policy is refused that some choice of that size meets. -/
theorem replica_groups_optimal (replication : ReplicationConfig)
    (callerId : String) (sessions : List NodeSession) (hcopies : 0 < requiredTargets replication ∨
      0 < min replication.desiredCopies (replicaTargets sessions).length) :
    let targets := replicaTargets sessions
    let count := min replication.desiredCopies targets.length
    let caller := targets.find? fun target => target.nodeId = callerId
    let head := if replication.localCopy = .notRequired then none else caller
    (∀ groups, buildReplicaGroups replication callerId sessions = .ok groups → ∀ group ∈ groups,
      replication.Meets group.targets ∧
        Optimal nodeId domain count head.toList targets group.targets) ∧
      ∀ failure, buildReplicaGroups replication callerId sessions = .error failure →
        replication.localCopy = .required ∧ caller = none ∨
          ∀ other ⊆ targets, other.length = count → ¬ replication.Meets other := by
  intro targets count caller head
  have hnum (hroom : requiredTargets replication ≤ count) : 0 < count :=
    hcopies.elim (·.trans_le hroom) id
  have huniq : (targets.map nodeId).Nodup := replicaTargets_nodup sessions
  have hhead : ∀ target ∈ head, target ∈ targets := by
    intro target haim
    simp only [head, Option.mem_def] at haim
    split at haim
    next => cases haim
    next => exact mem_of_find?_eq_some haim
  constructor
  · intro groups hgroups group hgroup
    simp only [buildReplicaGroups, bind_eq_ok, ensure_eq_ok, pure_eq_ok] at hgroups
    obtain ⟨-, -, -, -, -, hroom, -, -, rfl⟩ := hgroups
    have hmem := (mem_insertionSort _).mp ((destutter_sublist _ _).subset hgroup)
    obtain ⟨seed, -, hbuild⟩ := mem_filterMap.mp hmem
    obtain ⟨htargets, hmeets⟩ := buildReplicaGroup_eq_some hbuild
    refine ⟨hmeets, htargets ▸ selected_optimal huniq hhead ?_ (min_le_right _ _) seed⟩
    exact hnum (of_decide_eq_true hroom)
  · intro failure hfailure
    by_contra hneither
    obtain ⟨hcaller, hchoice⟩ := not_or.mp hneither
    push Not at hchoice
    obtain ⟨other, hother, hlen, hmeets⟩ := hchoice
    have hroom : requiredTargets replication ≤ count := hlen ▸ required_le hmeets
    simp only [buildReplicaGroups] at hfailure
    rw [ensure_bind, ensure_bind, ensure_bind, ensure_bind] at hfailure
    · cases hfailure
    · rw [Bool.not_eq_true', isEmpty_eq_false_iff, Ne, destutter_eq_nil,
        ← length_eq_zero_iff, length_insertionSort, length_eq_zero_iff]
      exact rotatedGroups_ne_nil huniq hhead (hnum hroom) (min_le_right _ _) hroom
        hother hlen hmeets
    · exact decide_eq_true hroom
    · exact decide_eq_true (hroom.trans (min_le_right _ _))
    · rw [Bool.or_eq_true, decide_eq_true_eq, Option.isSome_iff_ne_none, ← not_and_or]
      exact hcaller

def sessionIn (rack nodeId : String) : NodeSession :=
  ⟨nodeId, "s", "", "", "", true, [⟨"d", 1, 1, rack⟩], 1, 9⟩

/-- Three nodes of the rack of the caller, which comes first, and one of another. -/
def twoRacks : List NodeSession :=
  [sessionIn "r" "a", sessionIn "r" "b", sessionIn "r" "c", sessionIn "q" "d"]

theorem copies_placed_apart :
    ∃ groups, buildReplicaGroups ⟨2, 2, 2, 2, .required⟩ "b" twoRacks = .ok groups ∧
      groups.map (·.targets.map nodeId) = [["b", "d"]] ∧
      ∀ group ∈ groups, ReplicationConfig.Meets ⟨2, 2, 2, 2, .required⟩ group.targets := by
  have hnodes : (buildReplicaGroups ⟨2, 2, 2, 2, .required⟩ "b" twoRacks).map
      (fun groups => groups.map (·.targets.map nodeId)) = .ok [["b", "d"]] := by decide +kernel
  cases hgroups : buildReplicaGroups ⟨2, 2, 2, 2, .required⟩ "b" twoRacks with
  | error failure =>
    rw [hgroups] at hnodes
    cases hnodes
  | ok groups =>
    rw [hgroups] at hnodes
    refine ⟨groups, rfl, Except.ok.inj hnodes, fun group hgroup => ?_⟩
    exact ((replica_groups_optimal _ "b" twoRacks (.inl (by decide))).1 _ hgroups _ hgroup).1

/-- With no minima at all the empty group would do, but no round is made for it. -/
theorem empty_group_refused : buildReplicaGroups ⟨0, 0, 0, 0, .notRequired⟩ "a" [] =
        .error (conflict
          "DFS placement could not build a replica group satisfying the configured policy") ∧
      [] ⊆ replicaTargets [] ∧ ReplicationConfig.Meets ⟨0, 0, 0, 0, .notRequired⟩ [] :=
  ⟨rfl, nil_subset _, by decide⟩

end AgentDx.Dfs
