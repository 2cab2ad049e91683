import AgentDx.Roots.Lifecycle

/-!
# Access generations

A recovery hands the root to a new session of its home under the next access
generation, and an acquisition copies the generation of the home.  Both take it
from the home grant they have read and pin only the epoch of the root, so two
recoveries that read the same grant install the same generation.  Where the
grant read is still the one stored, generations grow along every run.
-/

namespace AgentDx.Roots

open List hiding next
open Store Client Std Word Transition
open Dfs hiding permissionDenied

/-! ## Installed generations -/

/-- The generation a mutation stores for an incarnation of a root. -/
def generationPut? (rootId : String) (rootEpoch : ℕ) : TxnMutation → Option ℕ
  | .put ⟨.rootGrant grant, _⟩ =>
    if grant.rootId = rootId ∧ grant.rootEpoch = rootEpoch then
      some grant.accessGeneration
    else
      none
  | _ => none

/-- The operation makes a session the home. -/
def installs (operation : StoreOperation) : Bool :=
  decide (operation = .activateRoot) || decide (operation = .recoverRoot)

/-- The generation a decided transaction installed for an incarnation. -/
def installedBy (rootId : String) (rootEpoch : ℕ) : MetaTxn × Result TxnOutcome → List ℕ
  | (txn, .ok (.committed _ _)) =>
    if installs txn.operation then
      txn.mutations.filterMap (generationPut? rootId rootEpoch)
    else
      []
  | _ => []

/-- All generations ever installed for an incarnation of a root, in order. -/
def installed (rootId : String) (rootEpoch : ℕ)
    (log : List (MetaTxn × Result TxnOutcome)) : List ℕ :=
  log.flatMap (installedBy rootId rootEpoch)

lemma installed_append (rootId rootEpoch log more) : installed rootId rootEpoch (log ++ more) =
      installed rootId rootEpoch log ++ installed rootId rootEpoch more := by
  simp [installed]

lemma installed_singleton (rootId rootEpoch entry) :
    installed rootId rootEpoch [entry] = installedBy rootId rootEpoch entry := by
  simp [installed]

lemma installedBy_of_rejected
    (hout : ∀ revision reply, outcome ≠ .ok (.committed revision reply)) :
    installedBy rootId rootEpoch (txn, outcome) = [] := by
  unfold installedBy
  cases outcome with
  | error error => rfl
  | ok outcome =>
    cases outcome with
    | committed revision reply => exact absurd rfl (hout revision reply)
    | conditionFailed revision existing => rfl

lemma installedBy_of_operation (hop : installs txn.operation = false) (outcome) :
    installedBy rootId rootEpoch (txn, outcome) = [] := by
  unfold installedBy
  split
  next heq =>
    cases heq
    simp [hop]
  · rfl

@[simp]
lemma generationPut?_putRoot (rootId rootEpoch root) :
    generationPut? rootId rootEpoch (putEntity (.root root)) = none :=
  rfl

@[simp]
lemma generationPut?_putGrant (rootId rootEpoch grant) :
    generationPut? rootId rootEpoch (putEntity (.rootGrant grant)) =
      if grant.rootId = rootId ∧ grant.rootEpoch = rootEpoch then
        some grant.accessGeneration
      else
        none :=
  rfl

@[simp]
lemma generationPut?_deleteKey (rootId rootEpoch key) :
    generationPut? rootId rootEpoch (deleteKey key) = none :=
  rfl

@[simp]
lemma generationPut?_record (rootId rootEpoch owned) :
    generationPut? rootId rootEpoch (.recordRequestOutcome owned) = none :=
  rfl

/-! ## The home grant -/

/-- The grant is the home's own grant for this version of the root. -/
structure IsHomeGrant (root : RootRecord) (grant : RootAccessGrant) : Prop where
  rootId_eq : grant.rootId = root.rootId
  rootEpoch_eq : grant.rootEpoch = root.rootEpoch
  homeNodeId_eq : grant.homeNodeId = root.homeNodeId
  homeSessionId_eq : grant.homeSessionId = root.homeSessionId
  holderNodeId_eq : grant.holderNodeId = root.homeNodeId
  holderSessionId_eq : grant.holderSessionId = root.homeSessionId

lemma isHomeGrant_homeGrant (root generation) : IsHomeGrant root (homeGrant root generation) :=
  ⟨rfl, rfl, rfl, rfl, rfl, rfl⟩

lemma IsHomeGrant.not_obsolete (hgrant : IsHomeGrant root grant)
    (hroot : state.entity? (.root root.rootId) = some (.root root)) (now) :
    obsoleteRootGrant state grant now = false := by
  obtain ⟨hid, hepoch, hnode, hsess, hown, hholderSession⟩ := hgrant
  simp [obsoleteRootGrant, hid, hroot, hepoch, hnode, hsess, hown, hholderSession]

/-- Every stored root has its home grant, whose generation is the last one
installed; an incarnation without an activation has none. -/
structure Generations (state : State)
    (log : List (MetaTxn × Result TxnOutcome)) : Prop where
  increasing : ∀ rootId rootEpoch, (installed rootId rootEpoch log).Pairwise (· < ·)
  home : ∀ rootId root, state.entity? (.root rootId) = some (.root root) →
    root.rootId = rootId ∧ ∃ grant earlier,
      state.entity? (homeGrantKey root) = some (.rootGrant grant) ∧ IsHomeGrant root grant ∧
      installed rootId root.rootEpoch log = earlier ++ [grant.accessGeneration]
  unused : ∀ rootId rootEpoch, rootEpoch ∉ (activated log).map RootRecord.rootEpoch →
    installed rootId rootEpoch log = []

section Invariant

variable {state next : State}
variable {log more : List (MetaTxn × Result TxnOutcome)}

lemma Generations.start (hroot : ∀ rootId, state.entity? (.root rootId) = none) :
    Generations state [] where
  increasing _ _ := .nil
  home rootId root hput := by simp [hroot rootId] at hput
  unused _ _ _ := rfl

variable (hgen : Generations state log)

include hgen

/-- Roots may disappear and grants other than those of a home may change. -/
lemma Generations.shrink (hroot : ∀ rootId entity, next.entity? (.root rootId) = some entity →
      state.entity? (.root rootId) = some entity)
    (hgrant : ∀ rootId root, state.entity? (.root rootId) = some (.root root) →
      ∀ grant, state.entity? (homeGrantKey root) = some (.rootGrant grant) →
      IsHomeGrant root grant →
      ∃ kept, next.entity? (homeGrantKey root) = some (.rootGrant kept) ∧ IsHomeGrant root kept ∧
        kept.accessGeneration = grant.accessGeneration)
    (hinstalled : ∀ rootId rootEpoch, installed rootId rootEpoch more =
      installed rootId rootEpoch log)
    (hact : activated more = activated log) : Generations next more where
  increasing rootId rootEpoch := by
    rw [hinstalled]
    exact hgen.increasing rootId rootEpoch
  home rootId root hput := by
    obtain ⟨hid, grant, earlier, hheld, hhome, hlast⟩ := hgen.home rootId root (hroot rootId _ hput)
    obtain ⟨kept, hkept, hkeptHome, heq⟩ :=
      hgrant rootId root (hroot rootId _ hput) grant hheld hhome
    refine ⟨hid, kept, earlier, hkept, hkeptHome, ?_⟩
    rw [hinstalled, hlast, heq]
  unused rootId rootEpoch hunused := by
    rw [hinstalled]
    exact hgen.unused rootId rootEpoch (hact ▸ hunused)

omit hgen in
lemma homeGrantKey_ne
    (hne : left.rootId ≠ right.rootId) : homeGrantKey left ≠ homeGrantKey right := by
  intro heq
  simp only [homeGrantKey, MetaKey.rootGrant.injEq] at heq
  exact hne heq.1

/-- A session becomes the home of a root under a generation above all installed
for this incarnation. -/
lemma Generations.install
    (hroots : ∀ rootId, next.entity? (.root rootId) = if root.rootId = rootId then some (.root root)
      else state.entity? (.root rootId))
    (hgrant : ∀ held : RootRecord, next.entity? (homeGrantKey held) =
      if homeGrantKey root = homeGrantKey held then
        some (.rootGrant (homeGrant root generation))
      else
        state.entity? (homeGrantKey held))
    (hgt : ∀ earlier ∈ installed root.rootId root.rootEpoch log, earlier < generation)
    (hinstalled : ∀ rootId rootEpoch, installed rootId rootEpoch more =
      installed rootId rootEpoch log ++
        if root.rootId = rootId ∧ root.rootEpoch = rootEpoch then [generation]
        else []) (hact : activated log ⊆ activated more)
    (hused : root.rootEpoch ∈ (activated more).map RootRecord.rootEpoch) :
    Generations next more where
  increasing rootId rootEpoch := by
    rw [hinstalled]
    split
    next heq =>
      obtain ⟨rfl, rfl⟩ := heq
      rw [pairwise_append]
      refine ⟨hgen.increasing _ _, pairwise_singleton _ _, ?_⟩
      intro earlier hpast new hnew
      rw [mem_singleton.mp hnew]
      exact hgt earlier hpast
    · rw [append_nil]
      exact hgen.increasing rootId rootEpoch
  home rootId stored hput := by
    rw [hroots] at hput
    split at hput
    next heq =>
      cases hput
      refine ⟨heq, homeGrant root generation,
        installed rootId root.rootEpoch log, ?_, isHomeGrant_homeGrant _ _, ?_⟩
      · rw [hgrant, if_pos rfl]
      · rw [hinstalled]
        simp [heq, homeGrant]
    next hother =>
      obtain ⟨hid, grant, earlier, hheld, hhome, hlast⟩ := hgen.home rootId stored hput
      refine ⟨hid, grant, earlier, ?_, hhome, ?_⟩
      · have hkeys : homeGrantKey root ≠ homeGrantKey stored := homeGrantKey_ne (hid.symm ▸ hother)
        rw [hgrant, if_neg hkeys]
        exact hheld
      · rw [hinstalled, hlast]
        simp [hother]
  unused rootId rootEpoch hunused := by
    rw [hinstalled, hgen.unused rootId rootEpoch, if_neg, append_nil]
    · rintro ⟨_, rfl⟩
      exact hunused hused
    · intro hmem
      obtain ⟨first, hone, rfl⟩ := mem_map.mp hmem
      exact hunused (mem_map_of_mem (hact hone))

lemma Generations.above (hlast : installed rootId rootEpoch log = earlier ++ [last]) :
    ∀ generation ∈ installed rootId rootEpoch log, generation ≤ last := by
  have hincreasing := hgen.increasing rootId rootEpoch
  rw [hlast, pairwise_append] at hincreasing
  rw [hlast]
  intro generation hmem
  rcases mem_append.mp hmem with hold | hnew
  · exact (hincreasing.2.2 generation hold last (mem_singleton_self _)).le
  · exact (mem_singleton.mp hnew).le

lemma Generations.spares (hspares : SparesRoots state next) : Generations next log := by
  apply hgen.shrink
  · intro rootId entity hent
    rw [← hspares.root_eq]
    exact hent
  · intro rootId root hroot grant hheld hhome
    have hid := (hgen.home rootId root hroot).1
    rcases hspares.grant root.rootId root.homeNodeId root.homeSessionId with
      heq | ⟨_, obsolete, time, hobsolete, hput⟩
    · exact ⟨grant, heq.trans hheld, hhome, rfl⟩
    · have heq : obsolete = grant := by
        simpa [homeGrantKey, hput] using hheld
      rw [heq, hhome.not_obsolete (hid ▸ hroot)] at hobsolete
      cases hobsolete
  · exact fun _ _ => rfl
  · rfl

/-! ## The transactions -/

lemma Generations.quiet (hroots : ∀ mutation ∈ txn.mutations, rootPut? mutation = none)
    (hgrant : ∀ mutation ∈ txn.mutations, ∀ rootId node session,
      mutation.target? ≠ some (.rootGrant rootId node session))
    (hop : installs txn.operation = false) (hcom : Commits state txn next) :
    Generations next (log ++ [(txn, outcome)]) := by
  apply hgen.shrink
  · intro rootId entity hent
    rw [hcom.entity?] at hent
    rcases root_kept_or_dropped hroots rootId (state.entity? (.root rootId)) with
      hkept | hdropped
    · exact hkept.symm.trans hent
    · simp [hdropped] at hent
  · intro rootId root _ grant hheld hhome
    refine ⟨grant, ?_, hhome, rfl⟩
    rw [hcom.entity?, leavesAll_of_targets]
    · exact hheld
    · exact fun mutation hmem => hgrant mutation hmem _ _ _
  · intro rootId rootEpoch
    rw [installed_append, installed_singleton, installedBy_of_operation hop, append_nil]
  · have hother : txn.operation ≠ .activateRoot := by
      intro hactivate
      simp [installs, hactivate] at hop
    rw [activated_append]
    unfold activatedBy
    split
    next heq =>
      cases heq
      simp [hother]
    · rw [append_nil]

lemma Generations.activate (hlife : Lifecycle state seen log)
    (hcom : Commits state (activationTxn request record localPrepareId) next) :
    Generations next (log ++ [(activationTxn request record localPrepareId,
      .ok (.committed revision reply))]) := by
  obtain ⟨hget, _, _, hroots, _⟩ := activationTxn_activates hcom
  obtain ⟨_, _, hkind, _, hfresh⟩ := hlife.pending _ _ hget
  cases hkind
  have hnew : activated (log ++ [(activationTxn request record localPrepareId,
      .ok (.committed revision reply))]) =
      activated log ++ [activatedRoot record localPrepareId] := by
    simp [activated_append, activatedBy, activationTxn, serviceTxn]
  apply @Generations.install state next log _ hgen (activatedRoot record localPrepareId) 1
  · exact hroots
  · intro held
    rw [hcom.entity?]
    simp [activationTxn, serviceTxn, entityKey, homeGrantKey, homeGrant]
  · intro earlier hpast
    change earlier ∈ installed record.rootId record.rootEpoch log at hpast
    rw [hgen.unused _ _ hfresh] at hpast
    cases hpast
  · intro rootId rootEpoch
    rw [installed_append, installed_singleton]
    by_cases heq : record.rootId = rootId ∧ record.rootEpoch = rootEpoch
    · simp [installedBy, installs, activationTxn, serviceTxn, homeGrant,
        activatedRoot, heq, filterMap_cons]
    · simp [installedBy, installs, activationTxn, serviceTxn, homeGrant,
        activatedRoot, heq, filterMap_cons]
  · rw [hnew]
    exact subset_append_left _ _
  · rw [hnew]
    simp

/-- An acquisition from the stored root and home grant copies the generation of
the home, also when the home itself asks. -/
lemma Generations.acquire {home} (hroot : state.entity? (.root input.rootId) = some (.root root))
    (hhome : state.entity? (homeGrantKey root) = some (.rootGrant home))
    (hcom : Commits state (acquisitionTxn input.requestId
      (acquiredGrant root home input rights) pinned) next) :
    Generations next (log ++ [(acquisitionTxn input.requestId
      (acquiredGrant root home input rights) pinned, outcome)]) := by
  obtain ⟨hid, _⟩ := hgen.home _ _ hroot
  apply hgen.shrink
  · intro rootId entity hent
    rw [hcom.entity?] at hent
    simpa [acquisitionTxn, serviceTxn, entityKey] using hent
  · intro rootId other hother grant hheld hgrant
    have hleft : next.entity? (homeGrantKey other) =
        if .rootGrant root.rootId input.requesterNodeId input.sessionId = homeGrantKey other then
          some (.rootGrant (acquiredGrant root home input rights))
        else
          state.entity? (homeGrantKey other) := by
      rw [hcom.entity?]
      rfl
    by_cases hkey : .rootGrant root.rootId input.requesterNodeId input.sessionId =
      homeGrantKey other
    · obtain ⟨hrootId, hnode, hsess⟩ :
          root.rootId = other.rootId ∧ input.requesterNodeId = other.homeNodeId ∧
            input.sessionId = other.homeSessionId := by
        simpa [homeGrantKey] using hkey
      have hsame : other = root := by
        have hotherId := (hgen.home _ _ hother).1
        have hids : rootId = input.rootId := by
          rw [← hotherId, ← hrootId, hid]
        rw [hids, hroot] at hother
        cases hother
        rfl
      subst hsame
      have hgeneration : home = grant := by
        rw [hhome] at hheld
        cases hheld
        rfl
      rw [if_pos hkey] at hleft
      refine ⟨_, hleft, ⟨rfl, rfl, rfl, rfl, hnode, hsess⟩, ?_⟩
      rw [← hgeneration]
      rfl
    · rw [if_neg hkey] at hleft
      exact ⟨grant, hleft.trans hheld, hgrant, rfl⟩
  · intro rootId rootEpoch
    rw [installed_append, installed_singleton, installedBy_of_operation rfl, append_nil]
  · rw [activated_append]
    unfold activatedBy
    split
    next heq =>
      cases heq
      simp [acquisitionTxn, serviceTxn]
    · rw [append_nil]

/-- A recovery from the stored root and home grant installs the next
generation. -/
lemma Generations.recover (hlife : Lifecycle state seen log) (hstate : state ∈ seen)
    {input : RecoverRootInput} (hroot : state.entity? (.root input.rootId) = some (.root root))
    (hroom : ∀ grant, state.entity? (homeGrantKey root) =
      some (.rootGrant grant) → grant.accessGeneration + 1 < size)
    (hcom : Commits state (recoveryTxn input.requestId
      (recoveredRoot root input.homeSessionId)
      (nextGeneration (state.entity? (homeGrantKey root)))) next) :
    Generations next (log ++ [(recoveryTxn input.requestId
      (recoveredRoot root input.homeSessionId)
      (nextGeneration (state.entity? (homeGrantKey root))), .ok (.committed revision reply))]) := by
  obtain ⟨hid, grant, earlier, hheld, hhome, hlast⟩ := hgen.home _ _ hroot
  have hnext : nextGeneration (state.entity? (homeGrantKey root)) = grant.accessGeneration + 1 := by
    have hspace := hroom grant hheld
    rw [hheld]
    simp only [nextGeneration, saturatingAdd]
    omega
  have hsilent : activated (log ++ [(recoveryTxn input.requestId
      (recoveredRoot root input.homeSessionId)
      (nextGeneration (state.entity? (homeGrantKey root))),
      .ok (.committed revision reply))]) = activated log := by
    simp [activated_append, activatedBy, recoveryTxn, serviceTxn]
  rw [hnext] at hcom hsilent ⊢
  apply @Generations.install state next log _ hgen
    (recoveredRoot root input.homeSessionId) (grant.accessGeneration + 1)
  · intro rootId
    rw [hcom.entity?]
    simp [recoveryTxn, serviceTxn, entityKey]
  · intro held
    rw [hcom.entity?]
    simp [recoveryTxn, serviceTxn, entityKey, homeGrantKey, homeGrant]
  · intro generation hmem
    have hmem : generation ∈ installed input.rootId root.rootEpoch log := hid ▸ hmem
    exact Nat.lt_succ_of_le (hgen.above hlast generation hmem)
  · intro rootId rootEpoch
    rw [installed_append, installed_singleton]
    by_cases heq : root.rootId = rootId ∧ root.rootEpoch = rootEpoch
    · simp [installedBy, installs, recoveryTxn, serviceTxn, homeGrant,
        recoveredRoot, heq, filterMap_cons]
    · simp [installedBy, installs, recoveryTxn, serviceTxn, homeGrant,
        recoveredRoot, heq, filterMap_cons]
  · rw [hsilent]
    exact List.Subset.refl _
  · rw [hsilent]
    obtain ⟨_, hkind, _, first, hone, hcont⟩ := hlife.active state hstate _ _ hroot
    cases hkind
    show root.rootEpoch ∈ _
    rw [hcont.rootEpoch_eq]
    exact mem_map_of_mem hone

end Invariant

/-! ## Runs of operations that read what they replace -/

section Runs

variable [Hash]

/-- The generation has a successor. -/
def hasRoom : MetaEntity → Bool
  | .rootGrant grant => decide (grant.accessGeneration + 1 < size)
  | _ => true

/-- What must hold of a state when a transaction commits on it: an
acquisition or a recovery is what its operation offers from this very state, and
no stored generation is the largest one. -/
structure ReadsCurrent (clock : ℕ) (state : State) (txn : MetaTxn) : Prop where
  offered : txn.operation = .acquireRoot ∨ txn.operation = .recoverRoot →
    ∃ operation : RootOperation, operation.program.firstOffer clock state = some txn
  room : state.entities.values.all (fun versioned =>
    hasRoom versioned.entity) = true

def DecidesCurrent [Footprint] (clock : ℕ) (state : State) (txn : MetaTxn)
    (next : State) (outcome : Result TxnOutcome) : Prop :=
  Decides clock state txn next outcome ∧
    ∀ revision reply, outcome = .ok (.committed revision reply) → ReadsCurrent clock state txn

lemma ReadsCurrent.grant_room (hcur : ReadsCurrent clock state txn)
    (hgrant : state.entity? key = some (.rootGrant grant)) : grant.accessGeneration + 1 < size := by
  obtain ⟨versioned, hver, hent⟩ := Option.map_eq_some_iff.mp hgrant
  have hroom := all_eq_true.mp hcur.room versioned (OrderedMap.mem_values.mpr ⟨key, hver⟩)
  rw [hent] at hroom
  exact of_decide_eq_true hroom

lemma ReadsCurrent.rootTxn (hcur : ReadsCurrent clock state txn)
    (hop : txn.operation = .acquireRoot ∨
      txn.operation = .recoverRoot) : RootTxn (· = state) txn := by
  obtain ⟨operation, hone⟩ := hcur.offered hop
  have hoffer : operation.program.Offers (· = state) (fun _ => True) txn :=
    Program.offers_of_firstOffer trivial hone
  exact RootOperation.rootTxn hoffer

lemma Generations.decides [Footprint] (hgen : Generations state log)
    (hlife : Lifecycle state seen log) (hstate : state ∈ seen) (htxn : RootTxn (· ∈ seen) txn)
    (hdec : DecidesCurrent clock state txn next outcome) :
    Generations next (log ++ [(txn, outcome)]) := by
  obtain ⟨hdec, hcur⟩ := hdec
  rcases hdec.cases with ⟨hents, _, hout⟩ | ⟨revision, reply, rfl, hcom⟩
  · have heq : ∀ key, next.entity? key = state.entity? key := by
      intro key
      rw [State.entity?, hents]
      rfl
    apply hgen.shrink
    · exact fun rootId entity hent => (heq _).symm.trans hent
    · exact fun rootId root _ grant hheld hhome =>
        ⟨grant, (heq _).trans hheld, hhome, rfl⟩
    · intro rootId rootEpoch
      rw [installed_append, installed_singleton, installedBy_of_rejected hout, append_nil]
    · rw [activated_append, (silent_of_rejected hout).2, append_nil]
  · replace hcur := hcur _ _ rfl
    by_cases hop : txn.operation = .acquireRoot ∨ txn.operation = .recoverRoot
    · have hnew := hcur.rootTxn hop
      cases hnew with
      | acquisition hearly hlate hroot hhome =>
        subst hearly hlate
        exact hgen.acquire hroot hhome hcom
      | recovery hearly hlate hroot =>
        subst hearly hlate
        exact hgen.recover hlife hstate hroot (fun grant hgrant => hcur.grant_room hgrant) hcom
      | sameIntent input existing => simp [sameIntentTxn, serviceTxn] at hop
      | allocation input home existing hroom =>
        simp [allocationTxn, serviceTxn] at hop
      | activation request record localPrepareId =>
        simp [activationTxn, serviceTxn] at hop
      | abortion request rootId reservation =>
        simp [abortTxn, serviceTxn] at hop
      | deactivation root grant requestId =>
        simp [deactivationTxn, serviceTxn] at hop
    · cases htxn with
      | activation request record localPrepareId =>
        exact hgen.activate hlife hcom
      | sameIntent input existing =>
        apply hgen.quiet _ _ rfl hcom
        · simp [sameIntentTxn, serviceTxn]
        · simp [sameIntentTxn, serviceTxn]
      | allocation input home existing hroom =>
        apply hgen.quiet _ _ rfl hcom
        · simp [allocationTxn, serviceTxn]
        · simp [allocationTxn, serviceTxn, entityKey]
      | abortion request rootId reservation =>
        apply hgen.quiet _ _ rfl hcom
        · simp [abortTxn, serviceTxn]
        · simp [abortTxn, serviceTxn]
      | deactivation root grant requestId =>
        apply hgen.quiet _ _ rfl hcom
        · simp [deactivationTxn, serviceTxn]
        · simp [deactivationTxn, serviceTxn, entityKey]
      | acquisition hearly hlate hroot hhome =>
        exact absurd (.inl rfl) hop
      | recovery hearly hlate hroot => exact absurd (.inr rfl) hop

/-- The grants a transaction stores. -/
def grantPut? : TxnMutation → Option RootAccessGrant
  | .put ⟨.rootGrant grant, _⟩ => some grant
  | _ => none

/-- The home grant of a stored root. -/
def HomeGrantIn (state : State) (rootId : String) (root : RootRecord)
    (grant : RootAccessGrant) : Prop :=
  state.entity? (.root rootId) = some (.root root) ∧
    state.entity? (homeGrantKey root) = some (.rootGrant grant)

lemma Generations.of_run [Footprint]
    (hrun : Run (Step StartsRoot DecidesCurrent SparesRoots) first labels last)
    (hseen : first.seen = [first.state]) (htasks : first.tasks = [])
    (hroots : ∀ rootId, first.state.entity? (.root rootId) = none)
    (hresv : ∀ rootId, first.state.entity? (.rootReservation rootId) = none) :
    Generations last.state labels.reduceOption := by
  have htraced : Traced StartsRoot first := by
    refine ⟨by simp [hseen], by simp [htasks]⟩
  have hinv : Lifecycle last.state last.seen labels.reduceOption ∧
      Generations last.state labels.reduceOption := by
    apply @run_safe _ _ _ _ StartsRoot DecidesCurrent SparesRoots
      (fun _ state seen log => Lifecycle state seen log ∧ Generations state log)
      _ _ _ _ _ _ hrun htraced
    · rw [hseen]
      exact ⟨.start hroots hresv, .start hroots⟩
    · exact fun _ hinv => hinv
    · exact fun hstate henv hinv =>
        ⟨hinv.1.spares hstate henv, hinv.2.spares henv⟩
    · rintro clock state next seen log program txn outcome hstate ⟨operation, rfl⟩ hoffer hdec
        ⟨hlife, hgen⟩
      have htxn := RootOperation.rootTxn hoffer
      exact ⟨hlife.decides hstate htxn hdec.1, hgen.decides hlife hstate htxn hdec⟩
  exact hinv.2

/-- In every run in which acquisitions and recoveries are committed on the root
and home grant they have read, and no generation is exhausted: the generations
installed for an incarnation grow, so a recovery installs one above all before
it; the generation of the home never decreases; and an acquisition stores the
generation and home session of the home grant. -/
theorem generations_grow [Footprint] {first last : World State MetaTxn (Result TxnOutcome) Error}
    {labels : List (Option (MetaTxn × Result TxnOutcome))}
    (hrun : Run (Step StartsRoot DecidesCurrent SparesRoots) first labels last)
    (hseen : first.seen = [first.state]) (htasks : first.tasks = [])
    (hroots : ∀ rootId, first.state.entity? (.root rootId) = none)
    (hkeep : ∀ rootId, first.state.entity? (.rootReservation rootId) = none) :
    (∀ rootId rootEpoch, (installed rootId rootEpoch labels.reduceOption).Pairwise (· < ·)) ∧
    (∀ earlier later middle, labels = earlier ++ later →
      Run (Step StartsRoot DecidesCurrent SparesRoots) first earlier middle →
      ∀ rootId old oldGrant new newGrant, HomeGrantIn middle.state rootId old oldGrant →
        HomeGrantIn last.state rootId new newGrant → old.rootEpoch = new.rootEpoch →
        oldGrant.accessGeneration ≤ newGrant.accessGeneration) ∧
    (∀ txn revision reply next, Step StartsRoot DecidesCurrent SparesRoots last
        (some (txn, .ok (.committed revision reply))) next → txn.operation = .acquireRoot →
      ∀ grant ∈ txn.mutations.filterMap grantPut?, ∃ root home,
        HomeGrantIn last.state grant.rootId root home ∧
        grant.accessGeneration = home.accessGeneration ∧
        grant.homeSessionId = home.homeSessionId) := by
  have hgen := Generations.of_run hrun hseen htasks hroots hkeep
  refine ⟨hgen.increasing, ?_, ?_⟩
  · rintro earlier later middle rfl hmiddle rootId old oldGrant new newGrant ⟨hold, holdGrant⟩
      ⟨hnew, hnewGrant⟩ hepoch
    have hmid := Generations.of_run hmiddle hseen htasks hroots hkeep
    obtain ⟨_, grant, before, hheld, _, hlast⟩ := hmid.home rootId old hold
    obtain ⟨_, current, others, hnow, _, hfinal⟩ := hgen.home rootId new hnew
    rw [holdGrant] at hheld
    rw [hnewGrant] at hnow
    cases hheld
    cases hnow
    apply hgen.above hfinal
    rw [List.reduceOption_append, installed_append, ← hepoch, hlast]
    simp
  · intro txn revision reply next hstep hop grant hgrant
    obtain ⟨_, _, _, ⟨_, hnow⟩, _⟩ := hstep.offered (Run.traced hrun (by
      refine ⟨by simp [hseen], by simp [htasks]⟩))
    have htxn := (hnow _ _ rfl).rootTxn (.inl hop)
    cases htxn with
    | acquisition hearly hlate hroot hhome =>
      subst hearly hlate
      obtain rfl : grant = _ := by
        simpa [acquisitionTxn, serviceTxn, putEntity, Owned.exact, grantPut?] using hgrant
      obtain ⟨hid, held, _, hheld, hisHome, _⟩ := hgen.home _ _ hroot
      rw [hhome] at hheld
      cases hheld
      refine ⟨_, _, ⟨?_, hhome⟩, rfl, hisHome.homeSessionId_eq.symm⟩
      show last.state.entity? (.root _) = _
      rw [← hroot]
      exact congrArg _ (congrArg _ hid)
    | sameIntent input existing => simp [sameIntentTxn, serviceTxn] at hop
    | allocation input home existing hroom =>
      simp [allocationTxn, serviceTxn] at hop
    | activation request record localPrepareId =>
      simp [activationTxn, serviceTxn] at hop
    | abortion request rootId reservation =>
      simp [abortTxn, serviceTxn] at hop
    | deactivation root grant requestId =>
      simp [deactivationTxn, serviceTxn] at hop
    | recovery hearly hlate hroot => simp [recoveryTxn, serviceTxn] at hop

end Runs

/-! ## Two recoveries -/

/-- The node registers a new session. -/
def reregistered (state : State) (sessionId : String) : State := { state with
  entities := state.entities.insert (.currentNodeSession "n")
    ⟨state.revision, .nodeSession ⟨"n", sessionId, "", "", "", true, [], 1, 1000000⟩⟩ }

lemma reregistered_spares (state sessionId) : SparesRoots state (reregistered state sessionId) where
  root_eq rootId := by
    simp [reregistered, State.entity?, ExtTreeMap.getElem?_insert]
  reservation_eq rootId := by
    simp [reregistered, State.entity?, ExtTreeMap.getElem?_insert]
  floor := by
    simp [reregistered, State.entity?, ExtTreeMap.getElem?_insert]
  grant rootId node session := by
    simp [reregistered, State.entity?, ExtTreeMap.getElem?_insert]

def createSchedule : List (ℕ × Service Unit) :=
  letI := plainHash
  [(0, (reserveAgain "1").program), (0, (RootOperation.activate ⟨"2", ⟨"r", 1, "n", "s", "intent",
      "prepare:r:s:intent:1", "n", "s"⟩, "local"⟩).program)]

def recoverAs (sessionId : String) : RootOperation :=
  .recover ⟨"3", "r", 1, "n", sessionId, "local"⟩

/-- What the given session offers once it has read the first home grant. -/
def recoverTxnAs (sessionId : String) : MetaTxn :=
  recoveryTxn "3" ⟨"r", 1, "n", sessionId, "local", 0, 0⟩ 2

/-- The store after the root was activated and its node restarted. -/
def restartedStore : State :=
  letI := plainFootprint
  reregistered (schedule decideAt createSchedule nodeStore).1 "t"

/-- The store after the first recovery and another restart of the node. -/
def recoveredStore : State :=
  letI := plainFootprint
  reregistered (decideAt 0 restartedStore (recoverTxnAs "t")).1 "u"

/-- Two sessions read the same home grant; each is current when its recovery is
decided, and both install the second generation. -/
theorem recoveries_repeat_generation : letI := plainFootprint
    letI := plainHash
    ∃ labels last,
      Run (Step StartsRoot Decides SparesRoots) ⟨0, nodeStore, [nodeStore], []⟩ labels last ∧
      installed "r" 1 labels.reduceOption = [1, 2, 2] := by
  let _ := plainFootprint
  let _ := plainHash
  obtain ⟨created, first, hcreated, hstate, hlog, hclock⟩ :=
    @schedule_run _ _ _ _ StartsRoot Decides SparesRoots
      (fun _ _ _ => true) decideAt
      (fun clock state txn _ => decides_decideAt clock state txn)
      createSchedule (by simp [createSchedule, StartsRoot])
      ⟨0, nodeStore, [nodeStore], []⟩ (by simp [createSchedule])
      (by simp) (by decide +kernel)
  obtain ⟨clock, state, seen, tasks⟩ := first
  obtain rfl : clock = 0 := hclock
  obtain rfl : state = (schedule decideAt createSchedule nodeStore).1 := hstate
  have hlate : (recoverAs "u").program.firstOffer 0 restartedStore =
      some (recoverTxnAs "u") := by decide +kernel
  have hearly : (recoverAs "t").program.firstOffer 0 restartedStore =
      some (recoverTxnAs "t") := by decide +kernel
  obtain ⟨reads, late, hreads, hreadsLog⟩ := @Program.offer_run _ _ _ _
    StartsRoot Decides SparesRoots _
    ⟨0, restartedStore, restartedStore :: seen, tasks⟩ _ ⟨_, rfl⟩ hlate
  obtain ⟨more, early, hmore, hmoreLog⟩ := @Program.offer_run _ _ _ _
    StartsRoot Decides SparesRoots _
    ⟨0, restartedStore, restartedStore :: seen,
      .commit (recoverTxnAs "u") late :: tasks⟩ _ ⟨_, rfl⟩ hearly
  have hrestarted := hcreated.snoc (.env (reregistered_spares _ "t"))
  have hoffered := (hrestarted.append hreads).append hmore
  have hone := hoffered.snoc (@Step.commit _ _ _ _ StartsRoot Decides SparesRoots _ []
    (.commit (recoverTxnAs "u") late :: tasks) _ _ _ _ rfl
    (decides_decideAt 0 restartedStore (recoverTxnAs "t")))
  have hagain := hone.snoc (.env (reregistered_spares _ "u"))
  have htwo := hagain.snoc (@Step.commit _ _ _ _ StartsRoot Decides SparesRoots _
    [early (decideAt 0 restartedStore (recoverTxnAs "t")).2] tasks _ _ _ _ rfl
    (decides_decideAt 0 recoveredStore (recoverTxnAs "u")))
  refine ⟨_, _, htwo, ?_⟩
  simp only [List.reduceOption_append, List.reduceOption_cons_of_none,
    List.reduceOption_cons_of_some, List.reduceOption_nil, hreadsLog, hmoreLog, hlog]
  decide +kernel

/-- Undisturbed, a recovery and the acquisition after it have the second
generation. -/
theorem recovery_then_acquisition : letI := plainFootprint
    letI := plainHash
    ∃ labels last,
      Run (Step StartsRoot DecidesCurrent SparesRoots) ⟨0, nodeStore, [nodeStore], []⟩ labels last ∧
      installed "r" 1 labels.reduceOption = [1, 2] ∧
      (installed "r" 1 labels.reduceOption).Pairwise (· < ·) := by
  let _ := plainFootprint
  let _ := plainHash
  let acquire : RootOperation := .acquire ⟨"4", "r", "n", "s", [.read], 0, 2⟩
  have hgood : ∀ clock state txn, (state.entities.values.all (fun versioned =>
          hasRoom versioned.entity) &&
        (decide (txn.operation ≠ .acquireRoot ∧ txn.operation ≠ .recoverRoot) ||
          [recoverAs "s", acquire].any fun operation =>
            decide (operation.program.firstOffer clock state = some txn))) =
        true → DecidesCurrent clock state txn (decideAt clock state txn).1
          (decideAt clock state txn).2 := by
    intro clock state txn hgood
    obtain ⟨hroom, hoffered⟩ := Bool.and_eq_true_iff.mp hgood
    refine ⟨decides_decideAt clock state txn, fun _ _ _ => ⟨fun hop => ?_, hroom⟩⟩
    rcases (Bool.or_eq_true _ _).mp hoffered with hother | hany
    · obtain ⟨hacquire, hrecover⟩ := of_decide_eq_true hother
      rcases hop with hop | hop
      · exact absurd hop hacquire
      · exact absurd hop hrecover
    · obtain ⟨operation, _, hone⟩ := List.any_eq_true.mp hany
      exact ⟨operation, of_decide_eq_true hone⟩
  obtain ⟨labels, last, hrun, _, hlog, _⟩ :=
    @schedule_run _ _ _ _ StartsRoot DecidesCurrent SparesRoots _ decideAt hgood
      (createSchedule ++ [(0, (recoverAs "s").program), (0, acquire.program)])
      (by simp [createSchedule, StartsRoot])
      ⟨0, nodeStore, [nodeStore], []⟩ (by simp [createSchedule])
      (by simp) (by decide +kernel)
  refine ⟨labels, last, hrun, ?_, ?_⟩
  · rw [hlog]
    decide +kernel
  · refine (generations_grow hrun rfl rfl (fun rootId => ?_) fun rootId => ?_).1 "r" 1 <;>
    simp [nodeStore, State.entity?]

end AgentDx.Roots
