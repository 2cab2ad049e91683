import AgentDx.Lib.OrderedMap
import AgentDx.Platform.Scheduling

/-!
# Queries through the indexes

What is found through the narrowest index is what a scan of all placed
environments finds.  A shared query therefore answers every rule and every score as
they are answered from the placed environments and the nodes alone, which
`Cluster` keeps without any index.
-/

namespace AgentDx.Platform.Scheduling

open Std OrderedMap Multimap List ExtTreeMap

/-! ## Direct evaluation -/

inductive Change where
  | place (placement : PlacedEnvironment)
  | remove (id : String)
  | updateNode (node : Node)
  | removeNode (id : String)

namespace Snapshot

variable (snapshot : Snapshot)

def placements : List PlacedEnvironment := snapshot.environments.toList.map Prod.snd

def scan (tenant : String) (selector : LabelSelector) : List PlacedEnvironment :=
  snapshot.placements.filter fun placed =>
    placed.spec.tenantId = tenant && selector.matches placed.spec.scheduling.labels

def change : Change → Snapshot
  | .place placement => snapshot.place placement
  | .remove id => snapshot.remove id
  | .updateNode node => snapshot.updateNode node
  | .removeNode id => snapshot.removeNode id

end Snapshot

/-- The placed environments and the nodes that a list of changes leaves. -/
structure Cluster where
  placed : ExtTreeMap String PlacedEnvironment
  nodes : ExtTreeMap String Node

namespace Cluster

def change (cluster : Cluster) : Change → Cluster
  | .place placement => { cluster with
      placed := cluster.placed.insert placement.spec.id placement }
  | .remove id => { cluster with placed := cluster.placed.erase id }
  | .updateNode node => { cluster with nodes := cluster.nodes.insert node.id node }
  | .removeNode id => { cluster with nodes := cluster.nodes.erase id }

variable (cluster : Cluster)

def environments : List PlacedEnvironment := cluster.placed.toList.map Prod.snd

/-- The environment runs on a node with this label. -/
def runsAt (key value : String) (placed : PlacedEnvironment) : Bool :=
  cluster.nodes[placed.nodeId]?.any (·.labels[key]? = some value)

variable (request : EnvironmentSpec) (node : Node)

/-- The environments a term of the request is about. -/
def peers (term : PeerTerm) : List PlacedEnvironment :=
  cluster.environments.filter fun placed =>
    term.matches request.tenantId placed.spec.tenantId placed.spec.scheduling.labels

/-- One of them is in the domain of the node. -/
def near (term : PeerTerm) : Bool :=
  node.labels[term.topologyKey]?.any fun value =>
    (cluster.peers request term).any (cluster.runsAt term.topologyKey value)

/-- The environments of the tenant that the selector matches. -/
def selected (tenant : String) (selector : LabelSelector) : List PlacedEnvironment :=
  cluster.environments.filter fun placed =>
    placed.spec.tenantId = tenant && selector.matches placed.spec.scheduling.labels

/-- A term that keeps the request away holds on the node of its owner. -/
def tolerates (placed : PlacedEnvironment) (term : PeerTerm) : Bool :=
  !term.matches placed.spec.tenantId request.tenantId request.scheduling.labels ||
    cluster.nodes[placed.nodeId]?.any fun home =>
      home.labels.contains term.topologyKey && node.labels.contains term.topologyKey &&
        node.labels[term.topologyKey]? ≠ home.labels[term.topologyKey]?

def affinity : Bool :=
  request.scheduling.requiredAffinity.all (fun term =>
    node.labels.contains term.topologyKey && (cluster.near request node term ||
      (cluster.peers request term).isEmpty &&
        term.matches request.tenantId request.tenantId request.scheduling.labels)) &&
  request.scheduling.requiredAntiAffinity.all (fun term =>
    node.labels.contains term.topologyKey && !cluster.near request node term) &&
  cluster.environments.all fun placed =>
    placed.spec.scheduling.requiredAntiAffinity.all (cluster.tolerates request node placed)

/-- The node meets a term of a group. -/
def meets (group : PlacementGroup) (term : WeightedSelector) : Bool :=
  match group.target with
  | .node => term.selector.matches node.labels
  | .environment => (cluster.selected request.tenantId term.selector).any (·.nodeId = node.id)

def groups : Bool :=
  !cluster.environments.any (fun placed => placed.spec.tenantId = request.tenantId &&
    placed.spec.scheduling.placementGroups.any (fun group => group.repels &&
      group.terms.any (·.selector.matches request.scheduling.labels)) && placed.nodeId = node.id) &&
  request.scheduling.placementGroups.all fun group => !group.required ||
    let found := group.terms.any (cluster.meets request node group)
    if group.anti then !found
    else found || (group.target = .environment &&
      group.terms.all (fun term => (cluster.selected request.tenantId term.selector).isEmpty) &&
      group.terms.any (·.selector.matches request.scheduling.labels))

/-- The domains of the nodes that the request may run on. -/
def domains (key : String) : List String :=
  (((cluster.nodes.toList.map Prod.snd).filter fun node => node.available &&
    request.scheduling.matchesNode node.labels).filterMap (·.labels[key]?)).dedup

/-- How many environments a domain has. -/
def crowd (spread : TopologySpread) (domain : String) : ℕ :=
  (cluster.selected request.tenantId spread.selector).countP
    (cluster.runsAt spread.topologyKey domain)

/-- The same for the domain of the node, if the request may run there. -/
def crowdAt (spread : TopologySpread) : Option ℕ :=
  (node.labels[spread.topologyKey]?.filter
    (cluster.domains request spread.topologyKey).contains).map (cluster.crowd request spread)

def balanced : Bool :=
  request.scheduling.topologySpread.all fun spread =>
    spread.whenUnsatisfiable ≠ .doNotSchedule ||
      let domains := cluster.domains request spread.topologyKey
      (cluster.crowdAt request node spread).any fun count =>
        let least := if domains.length < spread.minDomains then 0
          else (domains.map (cluster.crowd request spread)).min?.getD 0
        count + (spread.selector.matches request.scheduling.labels).toNat - least ≤ spread.maxSkew

def affinityScore : ℕ :=
  normalized (request.scheduling.preferredAffinity.map
      (fun peer => (peer.weight, cluster.near request node peer.term)) ++
    request.scheduling.preferredAntiAffinity.map fun peer =>
      (peer.weight, node.labels.contains peer.term.topologyKey &&
        !cluster.near request node peer.term))

def spreadScore : ℕ :=
  let shares := (request.scheduling.topologySpread.filter
    (·.whenUnsatisfiable = .scheduleAnyway)).map fun spread =>
      (cluster.crowdAt request node spread).elim 0 fun count => maxScore / (count + 1)
  shares.sum / shares.length

def groupScore : ℕ :=
  let shares := (request.scheduling.placementGroups.filter
    fun group => !group.required || group.ordered).map fun group =>
      let desired := group.terms.map (cluster.meets request node group · != group.anti)
      if group.ordered then (desired.findIdx? id).elim 0 fun index =>
        maxScore * (desired.length - index) / desired.length
      else
        let weights := group.terms.map WeightedSelector.weight
        maxScore * (((weights.zip desired).filter Prod.snd).map Prod.fst).sum / weights.sum
  shares.sum / shares.length

/-- The builtin rules, answered without indexes. -/
def filters (selectDevices : SelectDevices) : List Filter :=
  [nodeAvailable, resourceFit, runtimeFit, deviceFit selectDevices, nodeAffinity,
    fun request candidate => .ok (cluster.groups request candidate.node),
    fun request candidate => .ok (cluster.affinity request candidate.node),
    fun request candidate => .ok (cluster.balanced request candidate.node)]

def scores (placement : Placement) : List Score :=
  [fun request candidate => .ok (cluster.groupScore request candidate.node),
    resourceBalance placement, nodePreference,
    fun request candidate => .ok (cluster.affinityScore request candidate.node),
    fun request candidate => .ok (cluster.spreadScore request candidate.node)]

end Cluster

def Snapshot.cluster (snapshot : Snapshot) : Cluster := ⟨snapshot.environments, snapshot.nodes⟩

/-! ## Exact indexes -/

/-- The listed ids are those of the environments with a property. -/
def Covers (environments : ExtTreeMap String PlacedEnvironment) (listed : String → Prop)
    (holds : PlacedEnvironment → Prop) : Prop :=
  ∀ id, listed id ↔ ∃ placed, environments[id]? = some placed ∧ holds placed

section Covers

variable {environments : ExtTreeMap String PlacedEnvironment} {listed left : String → Prop}
  {holds : PlacedEnvironment → Prop} {placed : PlacedEnvironment} {id : String}

lemma Covers.erase (hspan : Covers environments listed holds)
    (hplaced : environments[id]? = some placed)
    (hleft : ∀ other, left other ↔ listed other ∧ ¬(other = id ∧ holds placed)) :
    Covers (environments.erase id) left holds := by
  intro other
  simp only [hleft, hspan other, ExtTreeMap.getElem?_erase, Std.compare_eq_iff_eq]
  by_cases hid : id = other
  · subst hid
    simp [hplaced]
  · simp [hid, Ne.symm hid]

lemma Covers.insert (hspan : Covers environments listed holds) (hgone : environments[id]? = none)
    (hleft : ∀ other, left other ↔ listed other ∨ other = id ∧ holds placed) :
    Covers (environments.insert id placed) left holds := by
  intro other
  simp only [hleft, hspan other, ExtTreeMap.getElem?_insert, Std.compare_eq_iff_eq]
  by_cases hid : id = other
  · subst hid
    simp [hgone]
  · simp [hid, Ne.symm hid]

end Covers

structure Indexed (snapshot : Snapshot) : Prop where
  keyed : ∀ (id : String) placed, snapshot.environments[id]? = some placed → placed.spec.id = id
  tenants : ∀ tenant, Covers snapshot.environments (Multimap.Lists snapshot.tenants tenant)
    (·.spec.tenantId = tenant)
  labels : ∀ key, Covers snapshot.environments (Multimap.Lists snapshot.labels key)
    (key ∈ ·.spec.labelKeys)
  reverse : Covers snapshot.environments (· ∈ snapshot.reverseAnti) (·.spec.repels)

variable {snapshot : Snapshot} {placed peer : PlacedEnvironment} {id : String}

lemma Indexed.empty : Indexed .empty := by
  refine ⟨?_, ?_, ?_, ?_⟩ <;> simp [Snapshot.empty, Covers, Multimap.Lists]

lemma Indexed.removeIndexes (hidx : Indexed snapshot) (id) : Indexed (snapshot.removeIndexes id) ∧
      (snapshot.removeIndexes id).environments = snapshot.environments.erase id := by
  unfold Snapshot.removeIndexes
  split
  next hnil =>
    refine ⟨hidx, ?_⟩
    ext key : 1
    by_cases hkey : id = key <;> simp_all [ExtTreeMap.getElem?_erase]
  next placed hplaced =>
    refine ⟨⟨?_, ?_, ?_, ?_⟩, rfl⟩
    · exact fun other found hget => hidx.keyed other found (getElem?_of_erase hget)
    · intro tenant
      refine (hidx.tenants tenant).erase hplaced fun other => ?_
      rw [Multimap.lists_drop, @eq_comm _ tenant]
    · intro key
      exact (hidx.labels key).erase hplaced fun other => Multimap.lists_foldl_drop
    · refine hidx.reverse.erase hplaced fun other => ?_
      rw [ExtTreeSet.mem_erase, ne_eq, Std.compare_eq_iff_eq, and_comm, @eq_comm _ id]
      refine and_congr_right fun hlist => not_congr (iff_self_and.mpr ?_)
      rintro rfl
      obtain ⟨found, hget, hrepels⟩ := (hidx.reverse other).mp hlist
      obtain rfl := Option.some.inj (hplaced.symm.trans hget)
      exact hrepels

lemma Indexed.place (hidx : Indexed snapshot) (placed) : Indexed (snapshot.place placed) := by
  obtain ⟨hgone, herased⟩ := hidx.removeIndexes placed.spec.id
  have habsent : (snapshot.removeIndexes placed.spec.id).environments[placed.spec.id]? = none := by
    simp [herased]
  refine ⟨?_, ?_, ?_, ?_⟩
  · intro other found hget
    rcases getElem?_insert_cases hget with ⟨hid, rfl⟩ | hget
    · exact hid
    · exact hgone.keyed other found hget
  · intro tenant
    refine (hgone.tenants tenant).insert habsent fun other => ?_
    rw [Snapshot.place, Multimap.lists_add, @eq_comm _ tenant]
  · intro key
    exact (hgone.labels key).insert habsent fun other => Multimap.lists_foldl_add
  · refine hgone.reverse.insert habsent fun other => ?_
    simp only [Snapshot.place]
    split <;> simp_all [ExtTreeSet.mem_insert, or_comm, @eq_comm _ placed.spec.id]

/-! ## Queries through the indexes -/

variable {tenant : String} {selector : LabelSelector} {ids : Option (ExtTreeSet String)}

lemma mem_labelKeys {spec : EnvironmentSpec} : ⟨tenant, key, value⟩ ∈ spec.labelKeys ↔
      spec.tenantId = tenant ∧ spec.scheduling.labels[key]? = some value := by
  simp [EnvironmentSpec.labelKeys, mem_toList_iff_getElem?_eq_some, and_comm]

lemma Indexed.narrow (hidx : Indexed snapshot) {entries}
    (hplaced : snapshot.environments[id]? = some placed) (htenant : placed.spec.tenantId = tenant)
    (hid : ∃ set ∈ ids, id ∈ set)
    (htags : ∀ entry ∈ entries, placed.spec.scheduling.labels[entry.1]? = some entry.2) :
    ∃ set ∈ snapshot.narrow tenant entries ids, id ∈ set := by
  induction entries generalizing ids with
  | nil => exact hid
  | cons entry rest ih =>
    obtain ⟨hrow, hrest⟩ := forall_mem_cons.mp htags
    obtain ⟨index, hindex, hlist⟩ := (hidx.labels ⟨tenant, entry.1, entry.2⟩ id).mpr
      ⟨placed, hplaced, mem_labelKeys.mpr ⟨htenant, hrow⟩⟩
    simp only [Snapshot.narrow, hindex]
    refine ih ?_ hrest
    split
    · exact ⟨index, rfl, hlist⟩
    · exact hid

lemma Indexed.narrow_tenant (hidx : Indexed snapshot) {entries}
    (hids : ∀ set ∈ ids, ∀ id ∈ set, ∃ placed, snapshot.environments[id]? = some placed ∧
      placed.spec.tenantId = tenant) : ∀ set ∈ snapshot.narrow tenant entries ids, ∀ id ∈ set,
      ∃ placed, snapshot.environments[id]? = some placed ∧ placed.spec.tenantId = tenant := by
  induction entries generalizing ids with
  | nil => exact hids
  | cons entry rest ih =>
    unfold Snapshot.narrow
    split
    next => simp
    next index hindex =>
      refine ih ?_
      split
      · rintro _ ⟨⟩ id hid
        obtain ⟨placed, hplaced, hkey⟩ := (hidx.labels _ id).mp ⟨index, hindex, hid⟩
        exact ⟨placed, hplaced, (mem_labelKeys.mp hkey).1⟩
      · exact hids

lemma Indexed.matching_eq (hidx : Indexed snapshot) :
    snapshot.matching tenant selector = snapshot.scan tenant selector := by
  have hpicked : ∀ (id : String) placed, snapshot.environments[id]? = some placed →
      selector.matches placed.spec.scheduling.labels → ((∃ set ∈ snapshot.narrow tenant
        selector.matchLabels.toList snapshot.tenants[tenant]?, id ∈ set) ↔
        placed.spec.tenantId = tenant) := by
    intro id placed hplaced hmatch
    constructor
    · rintro ⟨set, hset, hid⟩
      obtain ⟨found, hget, htenant⟩ := hidx.narrow_tenant
        (fun ids hids id hid => (hidx.tenants tenant id).mp ⟨ids, hids, hid⟩) set hset id hid
      cases hplaced.symm.trans hget
      exact htenant
    · intro htenant
      simp only [LabelSelector.matches, Bool.and_eq_true, all_eq_true, decide_eq_true_eq] at hmatch
      exact hidx.narrow hplaced htenant ((hidx.tenants tenant id).mpr ⟨placed, hplaced, htenant⟩)
        hmatch.1
  unfold Snapshot.matching Snapshot.scan Snapshot.placements
  extract_lets ids
  have hfind : (ids.elim [] (·.toList)).filterMap (snapshot.environments[·]?) =
      (snapshot.environments.toList.filter fun entry => ids.any (entry.1 ∈ ·)).map Prod.snd := by
    cases ids with
    | none => simp
    | some ids => simpa using filterMap_toList snapshot.environments ids
  rw [hfind, filter_map, filter_map, filter_filter]
  refine congrArg _ (filter_congr fun entry hrow => ?_)
  have hplaced := mem_toList_iff_getElem?_eq_some.mp hrow
  have hrow := hpicked entry.1 entry.2 hplaced
  cases hmatch : selector.matches entry.2.spec.scheduling.labels with
  | false => simp [hmatch]
  | true =>
    rw [Bool.eq_iff_iff]
    simpa [hmatch, Option.any_eq_true] using hrow hmatch

lemma repelling_eq (hidx : Indexed snapshot) :
    repelling snapshot = snapshot.placements.filter (·.spec.repels) := by
  rw [repelling, filterMap_toList, Snapshot.placements, filter_map]
  refine congrArg _ (filter_congr fun entry hrow => ?_)
  have hplaced := mem_toList_iff_getElem?_eq_some.mp hrow
  have hlist := hidx.reverse entry.1
  simp only [hplaced, Option.some.injEq, exists_eq_left'] at hlist
  simp [hlist]

/-- The indexes leave nothing out of the queries. -/
lemma Prepared.new_eq (hidx : Indexed snapshot) (request : EnvironmentSpec) :
    Prepared.new request snapshot = .over request snapshot snapshot.scan snapshot.placements := by
  have hmatching : snapshot.matching = snapshot.scan := by
    funext tenant selector
    exact hidx.matching_eq
  have hterms : ∀ placements : List PlacedEnvironment,
      reverseTerms request (placements.filter (·.spec.repels)) =
          reverseTerms request placements := by
    intro placements
    induction placements with
    | nil => rfl
    | cons placed rest ih =>
      rw [filter_cons]
      split
      next => simpa [reverseTerms] using ih
      next hrepels =>
        have hnil : placed.spec.scheduling.requiredAntiAffinity = [] := by
          simp only [EnvironmentSpec.repels, Bool.or_eq_true, not_or] at hrepels
          simpa using hrepels.1
        simpa [reverseTerms, hnil] using ih
  unfold Prepared.new Prepared.over
  rw [hmatching, repelling_eq hidx, hterms, filter_filter]
  congr 3
  funext placed
  rw [Bool.eq_iff_iff, Bool.and_eq_true, and_iff_left_iff_imp]
  intro hrepelled
  simp only [EnvironmentSpec.repels, Bool.or_eq_true, any_eq_true]
  simp only [Bool.and_eq_true, any_eq_true] at hrepelled
  obtain ⟨-, group, hgroup, hrepels, -⟩ := hrepelled
  exact .inr ⟨group, hgroup, hrepels⟩

lemma removeIndexes_nodes (snapshot : Snapshot) (id) :
    (snapshot.removeIndexes id).nodes = snapshot.nodes := by
  unfold Snapshot.removeIndexes
  split <;> rfl

lemma Indexed.change (hidx : Indexed snapshot) (change : Change) :
    Indexed (snapshot.change change) ∧
      (snapshot.change change).cluster = snapshot.cluster.change change := by
  cases change with
  | place placement =>
    obtain ⟨-, herased⟩ := hidx.removeIndexes placement.spec.id
    refine ⟨hidx.place placement, ?_⟩
    simp only [Snapshot.change, Snapshot.place, Snapshot.cluster, Cluster.change, herased,
      removeIndexes_nodes, Cluster.mk.injEq, and_true]
    ext key : 1
    simp only [ExtTreeMap.getElem?_insert, ExtTreeMap.getElem?_erase]
    split <;> rfl
  | remove id =>
    obtain ⟨hgone, herased⟩ := hidx.removeIndexes id
    refine ⟨hgone, ?_⟩
    simp only [Snapshot.change, Snapshot.remove, Snapshot.cluster, Cluster.change, herased,
      removeIndexes_nodes]
  | updateNode | removeNode =>
    exact ⟨⟨hidx.keyed, hidx.tenants, hidx.labels, hidx.reverse⟩, rfl⟩

/-- Whatever is placed and removed, the indexes stay exact, and the environments
and nodes are those of the changes. -/
lemma indexed_run (changes : List Change) : Indexed (changes.foldl Snapshot.change .empty) ∧
      (changes.foldl Snapshot.change .empty).cluster = changes.foldl Cluster.change ⟨∅, ∅⟩ := by
  induction changes using List.reverseRecOn with
  | nil => exact ⟨.empty, rfl⟩
  | append_singleton changes change ih =>
    rw [foldl_append, foldl_append, ← ih.2]
    exact ih.1.change change

/-! ## The rules, one by one -/

section Rules

variable (snapshot : Snapshot) (request : EnvironmentSpec)

lemma zip_map_self {A B : Type} (list : List A) (f : A → B) :
    list.zip (list.map f) = list.map fun item => (item, f item) := by
  induction list with
  | nil => rfl
  | cons item list ih => simp [ih]

lemma scan_eq : snapshot.scan = snapshot.cluster.selected := rfl

lemma cluster_environments : snapshot.cluster.environments = snapshot.placements := rfl

lemma cluster_nodes : snapshot.cluster.nodes = snapshot.nodes := rfl

lemma label_eq_some {key value} : snapshot.label placed.nodeId key = some value ↔
    snapshot.cluster.runsAt key value placed = true := by
  simp only [Snapshot.label, Cluster.runsAt, Snapshot.cluster, Option.any_eq_true,
    Option.bind_eq_some_iff, decide_eq_true_eq]

lemma mem_found (term : PeerTerm) :
    placed ∈ (if term.tenants.isEmpty then [request.tenantId] else term.tenants).flatMap
      (snapshot.scan · term.selector) ↔ placed ∈ snapshot.cluster.peers request term := by
  simp only [mem_flatMap, Snapshot.scan, Cluster.peers, PeerTerm.matches, mem_filter,
    cluster_environments, Bool.and_eq_true, decide_eq_true_eq]
  split
  · simp [@eq_comm _ request.tenantId, and_left_comm]
  · simp [and_left_comm]

lemma near_eq (candidate : Candidate) (term : PeerTerm) :
    candidate.near term (peers request snapshot snapshot.scan term) =
      snapshot.cluster.near request candidate.node term := by
  unfold Candidate.near Cluster.near
  congr 1
  funext value
  rw [Bool.eq_iff_iff, List.contains_iff_mem, any_eq_true]
  simp only [peers, mem_filterMap, mem_found snapshot request term, label_eq_some]

lemma any_eq (term : PeerTerm) : (peers request snapshot snapshot.scan term).any =
    !(snapshot.cluster.peers request term).isEmpty := by
  have hnil {first second : List PlacedEnvironment} (hiff : ∀ placed, placed ∈ first ↔
      placed ∈ second) : first.isEmpty = second.isEmpty := by
    rw [Bool.eq_iff_iff, List.isEmpty_iff, List.isEmpty_iff]
    simp only [eq_nil_iff_forall_not_mem, hiff]
  exact congrArg not (hnil fun placed => mem_found snapshot request term)

lemma reverse_eq (node : Node) (labels : Labels) (hlabels : labels = node.labels) :
    (!(reverseTerms request snapshot.placements).any (fun (placed, _) =>
        snapshot.nodes[placed.nodeId]?.isNone) &&
      ((reverseTerms request snapshot.placements).filterMap fun (placed, term) =>
        snapshot.nodes[placed.nodeId]?.map fun node =>
          (term.topologyKey, node.labels[term.topologyKey]?)).all fun (key, value) =>
        value.isSome && labels.contains key && labels[key]? ≠ value) =
    snapshot.cluster.environments.all fun placed => placed.spec.scheduling.requiredAntiAffinity.all
      (snapshot.cluster.tolerates request node placed) := by
  subst hlabels
  rw [Bool.eq_iff_iff]
  simp only [reverseTerms, Bool.and_eq_true, Bool.not_eq_true', any_eq_false, all_eq_true,
    mem_flatMap, mem_map, mem_filter, mem_filterMap, cluster_environments, cluster_nodes,
    Cluster.tolerates]
  constructor
  · rintro ⟨hpresent, hapart⟩ placed hplaced term hterm
    cases hmatch : term.matches placed.spec.tenantId request.tenantId request.scheduling.labels
    · rfl
    have hmem := hpresent (placed, term) ⟨placed, hplaced, term, ⟨hterm, hmatch⟩, rfl⟩
    cases hhome : snapshot.nodes[placed.nodeId]? with
    | none => simp [hhome] at hmem
    | some home =>
      have htag := hapart (term.topologyKey, home.labels[term.topologyKey]?)
        ⟨(placed, term), ⟨placed, hplaced, term, ⟨hterm, hmatch⟩, rfl⟩, by simp [hhome]⟩
      simpa using htag
  · intro hall
    refine ⟨?_, ?_⟩
    · rintro _ ⟨placed, hplaced, term, ⟨hterm, hmatch⟩, rfl⟩
      have htolerates := hall placed hplaced term hterm
      cases hhome : snapshot.nodes[placed.nodeId]? with
      | none => simp [hmatch, hhome] at htolerates
      | some home => simp
    · rintro _ ⟨_, ⟨placed, hplaced, term, ⟨hterm, hmatch⟩, rfl⟩, hval⟩
      obtain ⟨home, hhome, rfl⟩ := Option.map_eq_some_iff.mp hval
      have htolerates := hall placed hplaced term hterm
      simpa [hmatch, hhome] using htolerates

lemma groupMatching_eq (candidate : Candidate) (group : PlacementGroup) :
    groupMatching candidate group (groupNodes request snapshot.scan group) =
      group.terms.map (snapshot.cluster.meets request candidate.node group) := by
  unfold groupMatching groupNodes
  rw [zip_map_self, List.map_map]
  refine map_congr_left fun term _ => ?_
  unfold Cluster.meets
  cases haim : group.target with
  | node => simp
  | environment =>
    rw [Bool.eq_iff_iff]
    simp [scan_eq]

lemma spreadCounts_eq (spread : TopologySpread) :
    spreadCounts request snapshot snapshot.scan spread =
      (snapshot.cluster.domains request spread.topologyKey).map fun domain =>
        (domain, snapshot.cluster.crowd request spread domain) := by
  unfold spreadCounts Cluster.domains
  rw [filter_map, filterMap_map]
  refine map_congr_left fun domain _ => ?_
  rw [count_filterMap]
  refine congrArg _ (countP_congr fun placed _ => ?_)
  rw [beq_iff_eq, label_eq_some]

lemma lookup_map_self {f : String → ℕ} {domains : List String} (domain) :
    (domains.map fun item => (item, f item)).lookup domain =
      if domain ∈ domains then some (f domain) else none := by
  induction domains with
  | nil => rfl
  | cons item domains ih =>
    rw [map_cons, lookup_cons, ih]
    by_cases heq : domain = item
    · simp [heq]
    · simp [beq_false_of_ne heq, heq]

lemma domainCount_eq (candidate : Candidate) (spread : TopologySpread) :
    candidate.domainCount spread (spreadCounts request snapshot snapshot.scan spread) =
      snapshot.cluster.crowdAt request candidate.node spread := by
  unfold Candidate.domainCount Cluster.crowdAt
  rw [spreadCounts_eq]
  cases candidate.node.labels[spread.topologyKey]? with
  | none => rfl
  | some domain =>
    simp only [Option.bind_some, lookup_map_self, Option.filter_some]
    split <;> simp_all

variable {request} {candidate : Candidate} (hquery : candidate.query request =
  .over request snapshot snapshot.scan snapshot.placements)

include hquery

lemma affinity_eq : environmentAffinity request candidate =
    .ok (snapshot.cluster.affinity request candidate.node) := by
  unfold environmentAffinity Cluster.affinity
  simp only [hquery, Prepared.over, zip_map_self, all_map, Function.comp_def, near_eq,
    any_eq, Bool.not_not]
  rw [Bool.and_assoc, reverse_eq snapshot request candidate.node _ rfl]

lemma groups_eq : placementGroups request candidate =
    .ok (snapshot.cluster.groups request candidate.node) := by
  have hnil (group : PlacementGroup) : (group.target = .environment &&
      (groupNodes request snapshot.scan group).all (·.isEmpty)) = (group.target = .environment &&
        group.terms.all fun term =>
          (snapshot.cluster.selected request.tenantId term.selector).isEmpty) := by
    cases haim : group.target with
    | node => rfl
    | environment =>
      simp only [groupNodes, haim, all_map, Function.comp_def]
      congr 2
      funext term
      exact isEmpty_map
  unfold placementGroups Cluster.groups
  simp only [hquery, Prepared.over, zip_map_self, all_map, Function.comp_def,
    groupMatching_eq, any_map, hnil]
  congr 3
  rw [Bool.eq_iff_iff]
  simp [cluster_environments, and_assoc]

lemma topology_eq : topology request candidate =
    .ok (snapshot.cluster.balanced request candidate.node) := by
  unfold topology Cluster.balanced
  simp only [hquery, Prepared.over, zip_map_self, all_map, Function.comp_def, domainCount_eq]
  simp only [spreadCounts_eq, length_map, List.map_map, Function.comp_def]

lemma scores_eq : groupPreference request candidate =
        .ok (snapshot.cluster.groupScore request candidate.node) ∧
      environmentPreference request candidate =
        .ok (snapshot.cluster.affinityScore request candidate.node) ∧
      topologyPreference request candidate =
        .ok (snapshot.cluster.spreadScore request candidate.node) := by
  unfold groupPreference environmentPreference topologyPreference Cluster.groupScore
    Cluster.affinityScore Cluster.spreadScore
  simp only [hquery, Prepared.over, zip_map_self, filter_map, List.map_map, Function.comp_def,
    near_eq, groupMatching_eq, domainCount_eq, and_self]

end Rules

theorem queries_exact (changes : List Change) (request : EnvironmentSpec) (node : Node)
    (available : Resources) (devices : List Device) (selectDevices : SelectDevices)
    (placement : Placement) :
    let snapshot := changes.foldl Snapshot.change .empty
    let cluster := changes.foldl Cluster.change ⟨∅, ∅⟩
    let candidate := Candidate.mk node available devices snapshot (some (.new request snapshot))
    let bare := Candidate.mk node available devices .empty none
    (∀ tenant selector, snapshot.matching tenant selector = cluster.selected tenant selector) ∧
      (∀ id : String, id ∈ snapshot.reverseAnti ↔ ∃ placed, cluster.placed[id]? = some placed ∧
        (placed.spec.scheduling.requiredAntiAffinity ≠ [] ∨
          ∃ group ∈ placed.spec.scheduling.placementGroups,
            group.target = .environment ∧ group.required ∧ group.anti)) ∧
      (builtinFilters selectDevices).map (· request candidate) =
        (cluster.filters selectDevices).map (· request bare) ∧
      (builtinScores placement).map (· request candidate) =
        (cluster.scores placement).map (· request bare) := by
  intro snapshot cluster candidate bare
  obtain ⟨hidx, hcluster⟩ : Indexed snapshot ∧ snapshot.cluster = cluster := indexed_run changes
  clear_value cluster
  subst hcluster
  have hquery : candidate.query request =
      .over request snapshot snapshot.scan snapshot.placements := Prepared.new_eq hidx request
  refine ⟨fun tenant selector => hidx.matching_eq, fun id => ?_, ?_, ?_⟩
  · refine (hidx.reverse id).trans ?_
    simp [Snapshot.cluster, EnvironmentSpec.repels, PlacementGroup.repels, and_assoc]
  · simp only [builtinFilters, Cluster.filters, map_cons, map_nil, groups_eq snapshot hquery,
      affinity_eq snapshot hquery, topology_eq snapshot hquery]
    rfl
  · obtain ⟨hgroup, haffinity, hspread⟩ := scores_eq snapshot hquery
    simp only [builtinScores, Cluster.scores, map_cons, map_nil, hgroup, haffinity, hspread]
    rfl

end AgentDx.Platform.Scheduling
