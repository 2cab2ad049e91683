import AgentDx.Lib.Run
import AgentDx.Platform.Queries

/-!
# Environments that keep apart

A rule of the environment that is placed is checked against the environments
found through the label indexes, and a rule of one that is already there through
the reverse index.  Both indexes are exact, so whichever of the two comes second
is checked against the rules of both.
-/

namespace AgentDx.Platform.Scheduling

open Std Transition OrderedMap

variable {snapshot : Snapshot} {placed peer : PlacedEnvironment} {id : String}

/-! ## Queries through the indexes -/

lemma mem_placements (hplaced : snapshot.environments[id]? = some placed) :
    placed ∈ snapshot.placements :=
  List.mem_map.mpr ⟨(id, placed), ExtTreeMap.mem_toList_iff_getElem?_eq_some.mpr hplaced, rfl⟩

lemma Indexed.matching (hidx : Indexed snapshot)
    (hplaced : snapshot.environments[id]? = some placed) (htenant : placed.spec.tenantId = tenant)
    (hmatch : selector.matches placed.spec.scheduling.labels) :
    placed ∈ snapshot.matching tenant selector := by
  rw [hidx.matching_eq]
  exact List.mem_filter.mpr ⟨mem_placements hplaced, by simp [htenant, hmatch]⟩

lemma Indexed.repelling (hidx : Indexed snapshot)
    (hplaced : snapshot.environments[id]? = some placed) (hrepels : placed.spec.repels) :
    placed ∈ repelling snapshot := by
  rw [repelling_eq hidx]
  exact List.mem_filter.mpr ⟨mem_placements hplaced, hrepels⟩

/-! ## Rules between two environments -/

/-- The peer is in the domain from which a term of the owner keeps it. -/
def Crowds (snapshot : Snapshot) (owner peer : PlacedEnvironment) : Prop :=
  ∃ term ∈ owner.spec.scheduling.requiredAntiAffinity,
    term.matches owner.spec.tenantId peer.spec.tenantId peer.spec.scheduling.labels ∧
      ∃ value, snapshot.label owner.nodeId term.topologyKey = some value ∧
        snapshot.label peer.nodeId term.topologyKey = some value

/-- The peer is on the node from which a group of the owner keeps it. -/
def Intrudes (owner peer : PlacedEnvironment) : Prop :=
  owner.spec.tenantId = peer.spec.tenantId ∧ owner.nodeId = peer.nodeId ∧
    ∃ group ∈ owner.spec.scheduling.placementGroups, group.repels ∧
      ∃ term ∈ group.terms, term.selector.matches peer.spec.scheduling.labels

def Violates (snapshot : Snapshot) (owner peer : PlacedEnvironment) : Prop :=
  Crowds snapshot owner peer ∨ Intrudes owner peer

section Rules

lemma mem_zip_map {A B : Type} {items : List A} {item : A} {f : A → B}
    (hitem : item ∈ items) : (item, f item) ∈ items.zip (items.map f) := by
  rw [← List.map_prod_left_eq_zip]
  exact List.mem_map_of_mem hitem

variable {request : EnvironmentSpec} {candidate : Candidate}
  (hidx : Indexed snapshot) (hpeer : snapshot.environments[id]? = some peer)
  (hnode : snapshot.nodes[candidate.node.id]? = some candidate.node)
  (hquery : candidate.query request = .new request snapshot)

include hidx hpeer

lemma mem_peers {term : PeerTerm} {value}
    (hmatch : term.matches request.tenantId peer.spec.tenantId peer.spec.scheduling.labels)
    (hval : snapshot.label peer.nodeId term.topologyKey = some value) :
    value ∈ (peers request snapshot snapshot.matching term).values := by
  simp only [PeerTerm.matches, Bool.and_eq_true] at hmatch
  obtain ⟨htn, hsl⟩ := hmatch
  refine List.mem_filterMap.mpr ⟨peer, List.mem_flatMap.mpr ⟨peer.spec.tenantId, ?_,
    hidx.matching hpeer rfl hsl⟩, hval⟩
  split at htn <;> simp_all

include hnode hquery

/-- The affinity rule keeps the request from crowding a peer or being crowded. -/
lemma environmentAffinity_apart (hrule : environmentAffinity request candidate = .ok true) :
    ¬Crowds snapshot ⟨request, candidate.node.id⟩ peer ∧
      ¬Crowds snapshot peer ⟨request, candidate.node.id⟩ := by
  have hl (key : String) : snapshot.label candidate.node.id key = candidate.node.labels[key]? := by
    simp [Snapshot.label, hnode]
  simp only [environmentAffinity, hquery, Prepared.new, Prepared.over, Except.ok.injEq,
    Bool.and_eq_true, List.all_eq_true] at hrule
  obtain ⟨⟨⟨-, han⟩, -⟩, hrv⟩ := hrule
  constructor
  · rintro ⟨term, htr, hms, value, how, ho⟩
    have hm := mem_peers hidx hpeer hms ho
    have hfr := (han _ (mem_zip_map htr)).2
    rw [Candidate.near, ← hl, how] at hfr
    simp [hm] at hfr
  · rintro ⟨term, htr, hms, value, ho, how⟩
    have hrp : peer.spec.repels := by
      simp [EnvironmentSpec.repels, List.ne_nil_of_mem htr]
    have he : (peer, term) ∈ reverseTerms request (repelling snapshot) :=
      List.mem_flatMap.mpr ⟨peer, hidx.repelling hpeer hrp,
        List.mem_map_of_mem (List.mem_filter.mpr ⟨htr, hms⟩)⟩
    obtain ⟨node, hhs, hvl⟩ := Option.bind_eq_some_iff.mp ho
    have hfr := hrv (term.topologyKey, some value)
      (List.mem_filterMap.mpr ⟨_, he, by simp [hhs, hvl]⟩)
    simp [← hl, how] at hfr

omit hnode in
lemma placementGroups_apart (hrule : placementGroups request candidate = .ok true) :
    ¬Intrudes ⟨request, candidate.node.id⟩ peer ∧ ¬Intrudes peer ⟨request, candidate.node.id⟩ := by
  simp only [placementGroups, hquery, Prepared.new, Prepared.over, Except.ok.injEq,
    Bool.and_eq_true, List.all_eq_true] at hrule
  obtain ⟨hrv, hgo⟩ := hrule
  constructor
  · rintro ⟨htn, heq, group, hgr, hrp, selector, hsl, hms⟩
    simp only [PlacementGroup.repels, Bool.and_eq_true, decide_eq_true_eq] at hrp
    obtain ⟨⟨htg, hrq⟩, han⟩ := hrp
    have hfn : true ∈ groupMatching candidate group
        (groupNodes request snapshot.matching group) := by
      refine List.mem_map.mpr ⟨_, mem_zip_map hsl, ?_⟩
      have hm := hidx.matching hpeer htn.symm hms
      simp only [htg, reduceCtorEq, if_false, List.contains_eq_mem, List.mem_map, decide_eq_true_eq]
      exact ⟨peer, hm, heq.symm⟩
    have hfr := hgo _ (mem_zip_map hgr)
    simp [hrq, han, hfn] at hfr
  · rintro ⟨htn, heq, group, hgr, hrp, selector, hsl, hms⟩
    have hpr : peer.spec.repels := by
      simp only [EnvironmentSpec.repels, Bool.or_eq_true, List.any_eq_true]
      exact .inr ⟨group, hgr, hrp⟩
    simp at hrv
    exact hrv peer (hidx.repelling hpeer hpr) htn group hgr hrp selector hsl hms heq

end Rules

lemma runFilters_mem (hrun : runFilters filters request candidate = .ok true)
    (hfilter : filter ∈ filters) : filter request candidate = .ok true := by
  induction filters with
  | nil => cases hfilter
  | cons first rest ih =>
    obtain ⟨passed, hfs, hr⟩ := bind_eq_ok.mp hrun
    cases passed with
    | false => cases hr
    | true =>
      rcases List.mem_cons.mp hfilter with rfl | hfilter
      · exact hfs
      · exact ih hr hfilter

/-! ## Runs -/

/-- No environment is on the node. -/
def Vacant (snapshot : Snapshot) (nodeId : String) : Prop :=
  ∀ (id : String) placed, snapshot.environments[id]? = some placed → placed.nodeId ≠ nodeId

/-- Environments are placed on nodes that were allowed against this snapshot, and a
node keeps its labels and stays while it hosts one. -/
inductive Step (validate : EnvironmentSpec → Result Unit) :
    Snapshot → Change → Snapshot → Prop where
  | place {snapshot request} {candidate : Candidate} {early late}
      (hsnapshot : candidate.snapshot = snapshot)
      (hnode : snapshot.nodes[candidate.node.id]? = some candidate.node)
      (hprepared : ∀ query ∈ candidate.prepared, query = .new request snapshot)
      (hallows : allows validate early late request candidate = .ok true) :
      Step validate snapshot (.place ⟨request, candidate.node.id⟩)
        (snapshot.place ⟨request, candidate.node.id⟩)
  | remove {snapshot : Snapshot} (id : String) :
      Step validate snapshot (.remove id) (snapshot.remove id)
  | updateNode {snapshot : Snapshot} (node : Node)
      (hlabels : Vacant snapshot node.id ∨
        ∃ old, snapshot.nodes[node.id]? = some old ∧ old.labels = node.labels) :
      Step validate snapshot (.updateNode node) (snapshot.updateNode node)
  | removeNode {snapshot : Snapshot} (id : String) (hvacant : Vacant snapshot id) :
      Step validate snapshot (.removeNode id) (snapshot.removeNode id)

structure Apart (snapshot : Snapshot) : Prop where
  indexed : Indexed snapshot
  apart : ∀ (left right : String) owner peer, snapshot.environments[left]? = some owner →
    snapshot.environments[right]? = some peer → left ≠ right → ¬Violates snapshot owner peer

variable {validate : EnvironmentSpec → Result Unit} {after : Snapshot} {change : Change}

lemma Violates.of_labels (hviolates : Violates after owner peer)
    (howner : ∀ key, after.label owner.nodeId key = snapshot.label owner.nodeId key)
    (hpeer : ∀ key, after.label peer.nodeId key = snapshot.label peer.nodeId key) :
    Violates snapshot owner peer := by
  rcases hviolates with ⟨term, htr, hms, value, hon, ho⟩ | hin
  · exact .inl ⟨term, htr, hms, value, howner _ ▸ hon, hpeer _ ▸ ho⟩
  · exact .inr hin

/-- A change of the nodes that keeps the labels of those that host environments. -/
lemma Apart.nodes (hapart : Apart snapshot) {nodes}
    (htags : ∀ (id : String) placed, snapshot.environments[id]? = some placed → ∀ key,
      { snapshot with nodes := nodes }.label placed.nodeId key = snapshot.label placed.nodeId key) :
    Apart { snapshot with nodes := nodes } := by
  refine ⟨⟨hapart.indexed.keyed, hapart.indexed.tenants, hapart.indexed.labels,
    hapart.indexed.reverse⟩, ?_⟩
  intro left right owner peer how hpeer hne hvi
  exact hapart.apart left right owner peer how hpeer hne
    (hvi.of_labels (htags left owner how) (htags right peer hpeer))

lemma Apart.remove (hapart : Apart snapshot) (id) : Apart (snapshot.remove id) := by
  obtain ⟨hidx, her⟩ := hapart.indexed.removeIndexes id
  refine ⟨hidx, ?_⟩
  intro left right owner peer how hpeer hne hvi
  rw [Snapshot.remove, her] at how hpeer
  have hl (nodeId key : String) :
      (snapshot.removeIndexes id).label nodeId key = snapshot.label nodeId key := by
    rw [Snapshot.label, removeIndexes_nodes, Snapshot.label]
  exact hapart.apart left right owner peer (getElem?_of_erase how)
    (getElem?_of_erase hpeer) hne (hvi.of_labels (hl _) (hl _))

lemma Apart.place (hapart : Apart snapshot)
    (hnode : snapshot.nodes[candidate.node.id]? = some candidate.node)
    (hquery : candidate.query request = .new request snapshot)
    (hallows : allows validate early late request candidate = .ok true) :
    Apart (snapshot.place ⟨request, candidate.node.id⟩) := by
  obtain ⟨_, -, hfl⟩ := bind_eq_ok.mp hallows
  have haf : environmentAffinity request candidate = .ok true := runFilters_mem hfl (by simp)
  have hgr : placementGroups request candidate = .ok true := runFilters_mem hfl (by simp)
  have hl (nodeId key : String) : (snapshot.place ⟨request, candidate.node.id⟩).label nodeId key =
        snapshot.label nodeId key := by
    simp only [Snapshot.label, Snapshot.place, removeIndexes_nodes]
  have hfr {id : String} {peer : PlacedEnvironment}
      (hpeer : snapshot.environments[id]? = some peer) :
      ¬Violates snapshot ⟨request, candidate.node.id⟩ peer ∧
        ¬Violates snapshot peer ⟨request, candidate.node.id⟩ := by
    have hcr := environmentAffinity_apart hapart.indexed hpeer hnode hquery haf
    have hin := placementGroups_apart hapart.indexed hpeer hquery hgr
    exact ⟨not_or.mpr ⟨hcr.1, hin.1⟩, not_or.mpr ⟨hcr.2, hin.2⟩⟩
  refine ⟨hapart.indexed.place _, ?_⟩
  intro left right owner peer how hpeer hne hvi
  replace hvi := hvi.of_labels (hl _) (hl _)
  simp only [Snapshot.place, (hapart.indexed.removeIndexes request.id).2,
    ExtTreeMap.getElem?_insert, ExtTreeMap.getElem?_erase, Std.compare_eq_iff_eq]
    at how hpeer
  -- At most one of the two is the environment that is placed.
  split at how
  next hlf =>
    have hr : request.id ≠ right := fun hr => hne (hlf.symm.trans hr)
    simp only [hr, if_false] at hpeer
    cases how
    exact (hfr hpeer).1 hvi
  · split at hpeer
    · cases hpeer
      exact (hfr how).2 hvi
    · exact hapart.apart left right owner peer how hpeer hne hvi

lemma Apart.step (hapart : Apart snapshot) (hstep : Step validate snapshot change after) :
    Apart after := by
  cases hstep with
  | @place request candidate _ _ hsn hnode hpr hal =>
    refine hapart.place hnode ?_ hal
    subst hsn
    cases hquery : candidate.prepared with
    | none => simp [Candidate.query, hquery]
    | some query => simp [Candidate.query, hquery, hpr query hquery]
  | remove id => exact hapart.remove id
  | updateNode node hls =>
    refine hapart.nodes fun id placed hpl key => ?_
    simp only [Snapshot.label, ExtTreeMap.getElem?_insert, Std.compare_eq_iff_eq]
    split
    next hid =>
      rcases hls with hvc | ⟨old, hol, heq⟩
      · exact absurd hid.symm (hvc id placed hpl)
      · simp [← hid, hol, heq]
    · rfl
  | removeNode node hvc =>
    refine hapart.nodes fun id placed hpl key => ?_
    have ho : node ≠ placed.nodeId := fun hid => hvc id placed hpl hid.symm
    simp [Snapshot.label, ExtTreeMap.getElem?_erase, ho]

/-- In every run two environments never violate a required anti-affinity term or a
required anti group of either one. -/
theorem placements_stay_apart {changes : List Change}
    (hrun : Run (Step validate) .empty changes snapshot) {left right : String}
    {owner peer : PlacedEnvironment} (hown : snapshot.environments[left]? = some owner)
    (hpeer : snapshot.environments[right]? = some peer) (hne : left ≠ right) :
    ¬Violates snapshot owner peer := by
  have hnil : Apart .empty := ⟨.empty, by simp [Snapshot.empty]⟩
  have hapart : Apart snapshot := hrun.invariant (fun h hstep => h.step hstep) hnil
  exact hapart.apart left right owner peer hown hpeer hne

section Sample

def sampleNode (id : String) : Node := ⟨id, (∅ : Labels).insert "zone" id, true, ⟨0, 0, 0⟩, []⟩

/-- An environment that wants its zone for itself. -/
def sampleSpec (id : String) : EnvironmentSpec where
  id := id
  tenantId := "t"
  runtimeClass := ""
  resources := ⟨0, 0, 0⟩
  scheduling := ⟨∅, [], [⟨⟨∅, []⟩, "zone", []⟩], [], [], [], [], [], [], []⟩

def sampleNodes : Snapshot :=
  (Snapshot.empty.updateNode (sampleNode "a")).updateNode (sampleNode "b")

def sampleCandidate (snapshot : Snapshot) (node : String) : Candidate :=
  ⟨sampleNode node, ⟨0, 0, 0⟩, [], snapshot, none⟩

def samplePlaced : Snapshot := sampleNodes.place ⟨sampleSpec "x", "a"⟩

/-- Two environments with such a rule, in two zones. -/
theorem zones_stay_apart : ∃ changes, Run (Step fun _ => .ok ()) .empty changes
        (samplePlaced.place ⟨sampleSpec "y", "b"⟩) ∧
      ¬Violates (samplePlaced.place ⟨sampleSpec "y", "b"⟩) ⟨sampleSpec "x", "a"⟩
        ⟨sampleSpec "y", "b"⟩ := by
  have hnodes : Run (Step fun _ => .ok ()) .empty _ sampleNodes :=
    .snoc (.snoc (.refl _) (.updateNode (sampleNode "a") (.inl (by simp [Vacant, Snapshot.empty]))))
      (.updateNode (sampleNode "b") (.inl (by simp [Vacant, Snapshot.empty, Snapshot.updateNode])))
  have hone : Run (Step fun _ => .ok ()) .empty _ samplePlaced :=
    hnodes.snoc (@Step.place _ _ (sampleSpec "x") (sampleCandidate sampleNodes "a") [] [] rfl rfl
      (by simp [sampleCandidate]) rfl)
  have htwo := hone.snoc (@Step.place _ _ (sampleSpec "y")
    (sampleCandidate samplePlaced "b") [] [] rfl rfl (by simp [sampleCandidate]) rfl)
  exact ⟨_, htwo, @placements_stay_apart _ _ _ htwo "x" "y" _ _ rfl rfl (by decide)⟩

end Sample

end AgentDx.Platform.Scheduling
