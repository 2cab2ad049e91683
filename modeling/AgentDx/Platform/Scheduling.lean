import AgentDx.Lib.Multimap
import AgentDx.Platform.Types

/-!
# Placement rules

The snapshot of the cluster with its indexes, the queries prepared for one request,
and the builtin rules and scores.
-/

namespace AgentDx.Platform.Scheduling

open Std

abbrev Labels := ExtTreeMap String String

/-! ## Policies -/

structure Resources where
  cpuMillis : ℕ
  memoryBytes : ℕ
  diskBytes : ℕ

structure Node where
  id : String
  labels : Labels
  available : Bool
  capacity : Resources
  runtimeClasses : List String

structure Device where
  id : ℕ
  kind : DeviceKind
  model : String
  healthy : Bool

structure DeviceRequest where
  kind : DeviceKind
  model : Option String
  count : ℕ

inductive SelectorOp where
  | isIn | notIn | doesExist | doesNotExist | gt | lt

structure LabelRequirement where
  key : String
  op : SelectorOp
  values : List String

structure LabelSelector where
  matchLabels : Labels
  expressions : List LabelRequirement

/-- `str::parse::<i64>`. -/
def parseI64 (text : String) : Option ℤ := do
  let (negative, digits) := match text.toList with
    | '-' :: digits => (true, digits)
    | '+' :: digits => (false, digits)
    | digits => (false, digits)
  guard (digits ≠ [] && digits.all Char.isDigit)
  let value ← parseDigits digits
  let value : ℤ := if negative then -value else value
  if -2 ^ 63 ≤ value ∧ value < 2 ^ 63 then some value else none

def LabelRequirement.matches (requirement : LabelRequirement) (labels : Labels) : Bool :=
  let value := labels[requirement.key]?
  let numbers := Option.map₂ Prod.mk (value.bind parseI64) (requirement.values.head?.bind parseI64)
  match requirement.op with
  | .isIn => value.any requirement.values.contains
  | .notIn => value.all (!requirement.values.contains ·)
  | .doesExist => value.isSome
  | .doesNotExist => value.isNone
  | .gt => numbers.any fun (left, right) => right < left
  | .lt => numbers.any fun (left, right) => left < right

def LabelSelector.matches (selector : LabelSelector) (labels : Labels) : Bool :=
  selector.matchLabels.toList.all (fun (key, value) => labels[key]? = some value) &&
    selector.expressions.all (·.matches labels)

structure PeerTerm where
  selector : LabelSelector
  topologyKey : String
  tenants : List String

def PeerTerm.matches (term : PeerTerm) (ownerTenant peerTenant : String) (labels : Labels) : Bool :=
  (if term.tenants.isEmpty then ownerTenant == peerTenant
    else term.tenants.contains peerTenant) && term.selector.matches labels

structure WeightedSelector where
  selector : LabelSelector
  weight : ℕ

structure WeightedPeer where
  term : PeerTerm
  weight : ℕ

inductive SpreadMode where
  | doNotSchedule | scheduleAnyway
  deriving DecidableEq

structure TopologySpread where
  topologyKey : String
  selector : LabelSelector
  maxSkew : ℕ
  minDomains : ℕ
  whenUnsatisfiable : SpreadMode

inductive PlacementTarget where
  | node | environment
  deriving DecidableEq

structure PlacementGroup where
  target : PlacementTarget
  terms : List WeightedSelector
  required : Bool
  anti : Bool
  ordered : Bool

/-- A group that keeps environments off the node. -/
def PlacementGroup.repels (group : PlacementGroup) : Bool :=
  group.target = .environment && group.required && group.anti

structure SchedulingPolicy where
  labels : Labels
  requiredAffinity : List PeerTerm
  requiredAntiAffinity : List PeerTerm
  placementGroups : List PlacementGroup
  devices : List DeviceRequest
  requiredNode : List LabelSelector
  preferredNode : List WeightedSelector
  preferredAffinity : List WeightedPeer
  preferredAntiAffinity : List WeightedPeer
  topologySpread : List TopologySpread

def SchedulingPolicy.matchesNode (policy : SchedulingPolicy) (labels : Labels) : Bool :=
  policy.requiredNode.isEmpty || policy.requiredNode.any (·.matches labels)

/-- What the rules read of an environment's spec. -/
structure EnvironmentSpec where
  id : String
  tenantId : String
  runtimeClass : String
  resources : Resources
  scheduling : SchedulingPolicy

/-! ## The snapshot and its indexes -/

structure PlacedEnvironment where
  spec : EnvironmentSpec
  nodeId : String

structure LabelKey where
  tenant : String
  key : String
  value : String

instance : Ord LabelKey where
  compare := compareLex (compareOn LabelKey.tenant)
    (compareLex (compareOn LabelKey.key) (compareOn LabelKey.value))

instance : TransOrd LabelKey :=
  inferInstanceAs (TransCmp (compareLex (compareOn LabelKey.tenant)
    (compareLex (compareOn LabelKey.key) (compareOn LabelKey.value))))

instance : LawfulEqOrd LabelKey where
  eq_of_compare {left right} heq := by
    obtain ⟨htenant, hrest⟩ := compareLex_eq_eq.mp heq
    obtain ⟨hkey, hvalue⟩ := compareLex_eq_eq.mp hrest
    simp only [compareOn, Std.compare_eq_iff_eq] at htenant hkey hvalue
    cases left
    cases right
    simp_all

structure Snapshot where
  nodes : ExtTreeMap String Node
  environments : ExtTreeMap String PlacedEnvironment
  tenants : ExtTreeMap String (ExtTreeSet String)
  labels : ExtTreeMap LabelKey (ExtTreeSet String)
  reverseAnti : ExtTreeSet String

namespace Snapshot

def empty : Snapshot := ⟨∅, ∅, ∅, ∅, ∅⟩

/-- The label of a node of the snapshot. -/
def label (snapshot : Snapshot) (nodeId key : String) : Option String :=
  snapshot.nodes[nodeId]?.bind (·.labels[key]?)

end Snapshot

def EnvironmentSpec.labelKeys (spec : EnvironmentSpec) : List LabelKey :=
  spec.scheduling.labels.toList.map fun (key, value) => ⟨spec.tenantId, key, value⟩

/-- The spec has a rule that may keep a later environment away. -/
def EnvironmentSpec.repels (spec : EnvironmentSpec) : Bool :=
  !spec.scheduling.requiredAntiAffinity.isEmpty || spec.scheduling.placementGroups.any (·.repels)

namespace Snapshot

section

variable (snapshot : Snapshot) (id : String)

def removeNode : Snapshot :=
  { snapshot with nodes := snapshot.nodes.erase id }

def updateNode (node : Node) : Snapshot :=
  { snapshot with nodes := snapshot.nodes.insert node.id node }

def removeIndexes : Snapshot :=
  match snapshot.environments[id]? with
  | none => snapshot
  | some placed => { snapshot with
      environments := snapshot.environments.erase id
      tenants := Multimap.drop snapshot.tenants placed.spec.tenantId id
      labels := placed.spec.labelKeys.foldl (Multimap.drop · · id) snapshot.labels
      reverseAnti := snapshot.reverseAnti.erase id }

def remove : Snapshot := snapshot.removeIndexes id

def place (placement : PlacedEnvironment) : Snapshot :=
  let id := placement.spec.id
  let snapshot := snapshot.removeIndexes id
  { snapshot with
    tenants := Multimap.add snapshot.tenants placement.spec.tenantId id
    labels := placement.spec.labelKeys.foldl (Multimap.add · · id) snapshot.labels
    reverseAnti := if placement.spec.repels then snapshot.reverseAnti.insert id
      else snapshot.reverseAnti
    environments := snapshot.environments.insert id placement }

/-- The loop that picks the narrowest index. -/
def narrow (snapshot : Snapshot) (tenant : String) :
    List (String × String) → Option (ExtTreeSet String) → Option (ExtTreeSet String)
  | [], ids => ids
  | (key, value) :: rest, ids =>
    match snapshot.labels[LabelKey.mk tenant key value]? with
    | none => none
    | some index => snapshot.narrow tenant rest
        (if ids.any (index.size < ·.size) then some index else ids)

def matching (tenant : String) (selector : LabelSelector) : List PlacedEnvironment :=
  let ids := snapshot.narrow tenant selector.matchLabels.toList snapshot.tenants[tenant]?
  (ids.elim [] (·.toList)).filterMap (snapshot.environments[·]?) |>.filter
    (selector.matches ·.spec.scheduling.labels)

end

end Snapshot

/-! ## Prepared queries -/

structure PeerMatches where
  any : Bool
  values : List String

structure Prepared where
  required : List PeerMatches
  anti : List PeerMatches
  preferred : List PeerMatches
  preferredAnti : List PeerMatches
  reverse : List (String × Option String)
  reverseMissingNode : Bool
  groups : List (List (List String))
  reverseGroupNodes : List String
  spread : List (List (String × ℕ))

section Queries

variable (request : EnvironmentSpec) (snapshot : Snapshot)
  (matching : String → LabelSelector → List PlacedEnvironment)

/-- The closure `peers` of `Prepared::new`. -/
def peers (term : PeerTerm) : PeerMatches :=
  let found := (if term.tenants.isEmpty then [request.tenantId] else term.tenants).flatMap
    (matching · term.selector)
  ⟨!found.isEmpty, found.filterMap fun peer => snapshot.label peer.nodeId term.topologyKey⟩

def groupNodes (group : PlacementGroup) : List (List String) :=
  group.terms.map fun term =>
    if group.target = .node then []
    else (matching request.tenantId term.selector).map (·.nodeId)

/-- How many peers each domain has that an eligible node is in. -/
def spreadCounts (spread : TopologySpread) : List (String × ℕ) :=
  let eligible := snapshot.nodes.toList.filter fun (_, node) =>
    node.available && request.scheduling.matchesNode node.labels
  let found := (matching request.tenantId spread.selector).filterMap
    fun peer => snapshot.label peer.nodeId spread.topologyKey
  (eligible.filterMap fun (_, node) => node.labels[spread.topologyKey]?).dedup.map
    fun domain => (domain, found.count domain)

/-- The environments of the reverse index. -/
def repelling : List PlacedEnvironment :=
  snapshot.reverseAnti.toList.filterMap (snapshot.environments[·]?)

/-- The required anti-affinity terms of placed environments that match the request. -/
def reverseTerms (placements : List PlacedEnvironment) : List (PlacedEnvironment × PeerTerm) :=
  placements.flatMap fun placed =>
    (placed.spec.scheduling.requiredAntiAffinity.filter
      (·.matches placed.spec.tenantId request.tenantId request.scheduling.labels)).map
      (placed, ·)

/-- The queries over a lookup and a list of those that may repel. -/
def Prepared.over (placements : List PlacedEnvironment) : Prepared where
  required := request.scheduling.requiredAffinity.map (peers request snapshot matching)
  anti := request.scheduling.requiredAntiAffinity.map (peers request snapshot matching)
  preferred := request.scheduling.preferredAffinity.map (peers request snapshot matching ·.term)
  preferredAnti :=
    request.scheduling.preferredAntiAffinity.map (peers request snapshot matching ·.term)
  groups := request.scheduling.placementGroups.map (groupNodes request matching)
  reverseGroupNodes := (placements.filter fun placed =>
    placed.spec.tenantId = request.tenantId &&
      placed.spec.scheduling.placementGroups.any fun group =>
        group.repels && group.terms.any (·.selector.matches request.scheduling.labels)).map
          (·.nodeId)
  reverseMissingNode := (reverseTerms request placements).any fun (placed, _) =>
    snapshot.nodes[placed.nodeId]?.isNone
  reverse := (reverseTerms request placements).filterMap fun (placed, term) =>
    snapshot.nodes[placed.nodeId]?.map fun node =>
      (term.topologyKey, node.labels[term.topologyKey]?)
  spread := request.scheduling.topologySpread.map (spreadCounts request snapshot matching)

def Prepared.new : Prepared := .over request snapshot snapshot.matching (repelling snapshot)

end Queries

/-! ## Rules and scores -/

structure Candidate where
  node : Node
  available : Resources
  devices : List Device
  snapshot : Snapshot
  prepared : Option Prepared

/-- The shared query, or one made for this candidate. -/
def Candidate.query (candidate : Candidate) (request : EnvironmentSpec) : Prepared :=
  candidate.prepared.getD (.new request candidate.snapshot)

/-- The candidate is in the domain of a peer. -/
def Candidate.near (candidate : Candidate) (term : PeerTerm) (peers : PeerMatches) : Bool :=
  candidate.node.labels[term.topologyKey]?.any peers.values.contains

abbrev Filter := EnvironmentSpec → Candidate → Result Bool

def nodeAvailable : Filter := fun _ candidate => .ok candidate.node.available

def Resources.fits (request available : Resources) : Bool :=
  request.cpuMillis ≤ available.cpuMillis && request.memoryBytes ≤ available.memoryBytes &&
    request.diskBytes ≤ available.diskBytes

def resourceFit : Filter := fun request candidate =>
  .ok (request.resources.fits candidate.available)

def runtimeFit : Filter := fun request candidate =>
  .ok (candidate.node.runtimeClasses.contains request.runtimeClass)

/-- How cards are chosen for requests, or why they cannot be. -/
abbrev SelectDevices := List DeviceRequest → List Device → Result (List DeviceAllocation)

def deviceFit (selectDevices : SelectDevices) : Filter := fun request candidate =>
  match selectDevices request.scheduling.devices candidate.devices with
  | .ok _ => .ok true
  | .error .noCapacity => .ok false
  | .error error => .error error

def nodeAffinity : Filter := fun request candidate =>
  .ok (request.scheduling.matchesNode candidate.node.labels)

/-- `matching` of the groups: which terms of a group the node meets. -/
def groupMatching (candidate : Candidate) (group : PlacementGroup)
    (nodes : List (List String)) : List Bool :=
  (group.terms.zip nodes).map fun (term, nodes) =>
    match group.target with
    | .node => term.selector.matches candidate.node.labels
    | .environment => nodes.contains candidate.node.id

/-- `groups::Required`. -/
def placementGroups : Filter := fun request candidate =>
  let query := candidate.query request
  .ok (!query.reverseGroupNodes.contains candidate.node.id &&
    (request.scheduling.placementGroups.zip query.groups).all fun (group, nodes) =>
      !group.required || let found := (groupMatching candidate group nodes).any id
        if group.anti then !found
        else found || (group.target = .environment && nodes.all (·.isEmpty) &&
          group.terms.any (·.selector.matches request.scheduling.labels)))

def environmentAffinity : Filter := fun request candidate =>
  let query := candidate.query request
  let labels := candidate.node.labels
  .ok ((request.scheduling.requiredAffinity.zip query.required).all (fun (term, peers) =>
      labels.contains term.topologyKey && (candidate.near term peers ||
        !peers.any && term.matches request.tenantId request.tenantId request.scheduling.labels)) &&
    (request.scheduling.requiredAntiAffinity.zip query.anti).all (fun (term, peers) =>
      labels.contains term.topologyKey && !candidate.near term peers) &&
    !query.reverseMissingNode && query.reverse.all fun (key, value) =>
      value.isSome && labels.contains key && labels[key]? ≠ value)

/-- The count of the domain the candidate is in. -/
def Candidate.domainCount (candidate : Candidate) (spread : TopologySpread)
    (counts : List (String × ℕ)) : Option ℕ :=
  candidate.node.labels[spread.topologyKey]?.bind (List.lookup · counts)

def topology : Filter := fun request candidate =>
  .ok ((request.scheduling.topologySpread.zip (candidate.query request).spread).all
    fun (spread, counts) => spread.whenUnsatisfiable ≠ .doNotSchedule ||
      (candidate.domainCount spread counts).any fun count =>
        let least := if counts.length < spread.minDomains then 0
          else (counts.map Prod.snd).min?.getD 0
        let incoming := (spread.selector.matches request.scheduling.labels).toNat
        count + incoming - least ≤ spread.maxSkew)

abbrev Score := EnvironmentSpec → Candidate → Result ℕ

def maxScore : ℕ := 3000000

/-- The matched share of the weights; `checked_div` by no weight gives zero. -/
def normalized (terms : List (ℕ × Bool)) : ℕ :=
  ((terms.filter Prod.snd).map Prod.fst).sum * maxScore / (terms.map Prod.fst).sum

inductive Placement where
  | pack | spread

/-- The share that stays free of each dimension, in millionths. -/
def resourceBalance (placement : Placement) : Score := fun request candidate =>
  let fraction (field : Resources → ℕ) : ℕ :=
    let total := field candidate.node.capacity
    min (field candidate.available - field request.resources) total * 1000000 / total
  let free := fraction (·.cpuMillis) + fraction (·.memoryBytes) + fraction (·.diskBytes)
  match placement with
  | .pack => .ok (maxScore - free)
  | .spread => .ok free

def nodePreference : Score := fun request candidate =>
  .ok (normalized (request.scheduling.preferredNode.map fun term =>
    (term.weight, term.selector.matches candidate.node.labels)))

def environmentPreference : Score := fun request candidate =>
  let query := candidate.query request
  let labels := candidate.node.labels
  .ok (normalized ((request.scheduling.preferredAffinity.zip query.preferred).map
      (fun (peer, peers) => (peer.weight, candidate.near peer.term peers)) ++
    (request.scheduling.preferredAntiAffinity.zip query.preferredAnti).map fun (peer, peers) =>
      (peer.weight, labels.contains peer.term.topologyKey && !candidate.near peer.term peers)))

def topologyPreference : Score := fun request candidate =>
  let shares := ((request.scheduling.topologySpread.zip (candidate.query request).spread).filter
    fun (spread, _) => spread.whenUnsatisfiable = .scheduleAnyway).map fun (spread, counts) =>
      (candidate.domainCount spread counts).elim 0 fun count => maxScore / (count + 1)
  .ok (shares.sum / shares.length)

/-- `groups::Preference`. -/
def groupPreference : Score := fun request candidate =>
  let shares := ((request.scheduling.placementGroups.zip (candidate.query request).groups).filter
    fun (group, _) => !group.required || group.ordered).map fun (group, nodes) =>
      let desired := (groupMatching candidate group nodes).map (· != group.anti)
      if group.ordered then (desired.findIdx? id).elim 0 fun index =>
        maxScore * (desired.length - index) / desired.length
      else
        let weights := group.terms.map WeightedSelector.weight
        maxScore * (((weights.zip desired).filter Prod.snd).map Prod.fst).sum / weights.sum
  .ok (shares.sum / shares.length)

/-- The rules of `Framework::new`, in their order. -/
def builtinFilters (selectDevices : SelectDevices) : List Filter :=
  [nodeAvailable, resourceFit, runtimeFit, deviceFit selectDevices, nodeAffinity, placementGroups,
    environmentAffinity, topology]

/-- The scores of `Framework::builtin`. -/
def builtinScores (placement : Placement) : List Score :=
  [groupPreference, resourceBalance placement, nodePreference, environmentPreference,
    topologyPreference]

def runFilters : List Filter → Filter
  | [], _, _ => .ok true
  | filter :: rest, request, candidate => do
      if ← filter request candidate then runFilters rest request candidate
      else return false

/-- `Framework::allows` of the builtin profile.  `validate` is the spec's own check,
`early` stands for the filters for availability, resources, runtime, devices and
node affinity, and `late` for topology. -/
def allows (validate : EnvironmentSpec → Result Unit) (early late : List Filter) : Filter :=
  fun request candidate => do
    validate request
    runFilters (early ++ [placementGroups, environmentAffinity] ++ late) request candidate

end AgentDx.Platform.Scheduling
