import AgentDx.Dfs.Chunk
import AgentDx.Dfs.Service

/-!
# Reachability collection

The collector looks at one published state, decides which records nothing
reaches any more, and deletes them in one transaction that is pinned to the
revision it looked at.  Chunks are not deleted at once: they are listed as
pending, and the next collection waits until every node has reported that its
replicas are gone.
-/

namespace AgentDx.Dfs

open Store Client Std Word Result List

/-- How the service is configured. -/
structure ServiceConfig where
  replication : ReplicationConfig
  durabilityPolicy : DfsDurabilityPolicy
  gcGraceMs : ℕ

def ServiceConfig.isExternalBackend (config : ServiceConfig) : Bool :=
  match config.durabilityPolicy with
  | .externalBackend _ _ => true
  | .nodeReplicated => false

def maxChunks : ℕ := 1024

def admissionHorizonMs : ℕ := 60000

def admissionClockSkewMs : ℕ := 60000

/-- A retired reference lingers at least this long, so that a late admission
still meets its tombstone. -/
def referenceRecordRetentionMs : ℕ := admissionHorizonMs + admissionClockSkewMs

/-! ## What is reachable -/

section Plan

variable [Hash]

section

variable (entities : List MetaEntity) (references : List GcReference) (inodes : List InodeId)
  (now grace : ℕ) (reference : GcReference)

/-- The reference still protects what it names. -/
def GcReference.protects : Bool :=
  match reference.retiredAtUnixMs with
  | none => true
  | some time => decide (now < saturatingAdd time grace)

/-- Inodes kept by a reference or by an unexpired lease. -/
def protectedInodes : List InodeId :=
  ((references.filter (GcReference.protects now grace)).filterMap
      GcReference.inodeId) ++ entities.filterMap fun
      | .dfsWriteLease lease =>
        if now < lease.expiresAtUnixMs then some lease.inodeId else none
      | _ => none

/-- Head versions of the inodes that are linked or protected. -/
def liveHeads : List FileVersionId :=
  entities.filterMap fun
    | .dfsInode inode =>
      if 0 < inode.attributes.nlink ∨ inode.inodeId ∈ inodes then
        inode.headVersion
      else
        none
    | _ => none

/-- The versions that are a live head or belong to a protected inode. -/
def liveVersions (heads : List FileVersionId) : List FileVersion :=
  entities.filterMap fun
    | .dfsFileVersion version =>
      if version.id ∈ heads ∨ version.inodeId ∈ inodes then
        some version
      else
        none
    | _ => none

/-- The write generation a publication reference stands for. -/
def GcReference.generation? : Option String :=
  match stripLeading "write:" reference.referenceId with
  | some generation => some generation
  | none => (stripLeading "publish:" reference.referenceId).map generationId

/-- Generations whose objects are protected before any version names them. -/
def liveGenerations : List String :=
  (references.filter fun reference =>
      reference.publication && reference.protects now grace).filterMap
    GcReference.generation?

/-- Chunks reached by a live layout, a claimed repair, a reference or an
admitted write generation. -/
def liveChunks (layouts : List LayoutRootId) (now grace : ℕ) : List ChunkId :=
  let generations := liveGenerations references now grace
  (entities.flatMap fun
    | .dfsLayoutRoot layout =>
      if layout.id ∈ layouts then
        layout.inlineExtents.map Extent.chunkId
      else
        []
    | .dfsReplicationTask task =>
      if task.claim.any fun claim => decide (now < claim.expiresAtUnixMs) then
        [task.chunkId]
      else
        []
    | .dfsChunk chunk =>
      if chunk.writeGeneration.any fun generation =>
          decide (generation ∈ generations) then
        [chunk.id]
      else
        []
    | _ => []) ++ (references.filter (GcReference.protects now grace)).flatMap fun reference =>
      reference.chunks.map ChunkObject.id

end

/-- What a collection deletes: entity keys now, chunks once every node has
removed its replicas. -/
structure GcPlan where
  keys : List MetaKey
  chunks : List ChunkId

/-- The entity is not reached. -/
def isDead (inodes : List InodeId) (versions : List FileVersionId)
    (layouts : List LayoutRootId) (reclaim : List ChunkId) (now grace : ℕ) : MetaEntity → Bool
  | .dfsInode inode =>
    decide (inode.attributes.nlink = 0) && decide (inode.inodeId ∉ inodes)
  | .dfsFileVersion version => decide (version.id ∉ versions)
  | .dfsLayoutRoot layout => decide (layout.id ∉ layouts)
  | .dfsChunk chunk => decide (chunk.id ∈ reclaim)
  | .dfsPlacement placement => decide (placement.chunkId ∈ reclaim)
  | .dfsCopy copy => decide (copy.chunkId ∈ reclaim)
  | .dfsReplicationTask task => decide (task.chunkId ∈ reclaim)
  | .dfsWriteLease lease => decide (lease.expiresAtUnixMs ≤ now)
  | .dfsReference reference => reference.retiredAtUnixMs.any fun time =>
    decide (saturatingAdd time (max grace referenceRecordRetentionMs) ≤ now)
  | _ => false

def planCollection (entities : List MetaEntity) (references : List GcReference)
    (now grace : ℕ) : GcPlan :=
  let inodes := protectedInodes entities references now grace
  let versions := liveVersions entities inodes (liveHeads entities inodes)
  let layouts := versions.map FileVersion.layoutRoot
  let chunks := liveChunks entities references layouts now grace
  let unreached : ExtTreeSet ChunkId := .ofList <| entities.filterMap fun
    | .dfsChunk chunk => if chunk.id ∈ chunks then none else some chunk.id
    | _ => none
  let reclaim := unreached.toList.take maxChunks
  { keys := (entities.filter (isDead inodes (versions.map FileVersion.id)
      layouts reclaim now grace)).map entityKey
    chunks := reclaim }

end Plan

/-! ## Callers and sessions -/

section

variable (entities : List MetaEntity) (node session : String)

def entityReference? : MetaEntity → Option GcReference
  | .dfsReference reference => some reference
  | _ => none

def gcState : GcState :=
  (entities.findSome? fun
    | .dfsGc state => some state
    | _ => none).getD ⟨0, [], []⟩

/-- `Iterator::max_by_key`: the last of the largest. -/
def lastMax {A : Type} (key : A → ℕ) (items : List A) : Option A :=
  items.foldl (fun best item =>
    match best with
    | none => some item
    | some held => if key held ≤ key item then some item else some held) none

def nodeSessionOf (node : String) : MetaEntity → Option NodeSession
  | .nodeSession session => if session.nodeId = node then some session else none
  | _ => none

def liveCaller : Service Unit := do
  let time ← now
  ensure ((lastMax NodeSession.leaseEpoch
      (entities.filterMap (nodeSessionOf node))).any fun value =>
        decide (value.sessionId = session) && value.isLiveAtUnixMs time)
    (permissionDenied "GC requires the current live Node session")

/-- Deadlines of the other sessions of a node; the last record counts. -/
def oldDeadline (node session old : String) : Option ℕ :=
  (entities.filterMap (nodeSessionOf node)).reverse.findSome? fun value =>
    if value.sessionId ≠ session ∧ value.sessionId = old then
      some value.expiresAtUnixMs
    else
      none

/-- A new session retires the references of the sessions it replaced, at their
authority deadline or now, whichever is later. -/
def retireReplaced
    (time : ℕ) : MetaEntity → Option MetaEntity
  | .dfsReference reference =>
    if reference.nodeId = node ∧ reference.sessionId ≠ session ∧
        reference.retiredAtUnixMs = none then
      some (.dfsReference { reference with
        retiredAtUnixMs := some (max
          ((oldDeadline entities node session reference.sessionId).getD time)
          time) })
    else
      none
  | _ => none

end

/-! ## Transactions of the collector -/

/-- A collector transaction under a fresh request identity. -/
def gcTxn (request : RequestKey) (conditions : List TxnCondition)
    (operation : StoreOperation) (mutations : List TxnMutation) : MetaTxn where
  request := request
  operation := operation
  conditions := conditions ++ [.requestAbsent request]
  mutations := mutations ++ [.recordRequestOutcome (.exact ⟨request, operation, .empty⟩)]

/-- The process and the ticket drawn from its counter for this attempt. -/
structure Ticket where
  processId : ℕ
  sequence : ℕ

def gcCommitChecked (ticket : Ticket) (conditions : List TxnCondition)
    (operation : StoreOperation) (mutations : List TxnMutation) : Service Bool := do
  let time ← now
  let request : RequestKey := ⟨"afs-meta", "afs1-" ++ toString time ++ "-gc-" ++
    toString ticket.processId ++ "-" ++ toString ticket.sequence⟩
  match ← compareAndCommit (gcTxn request conditions operation mutations) with
  | .committed _ _ => return true
  | .conditionFailed _ _ => return false

def gcCommit (ticket : Ticket) (revision : ℕ) (operation : StoreOperation)
    (mutations : List TxnMutation) : Service Bool :=
  gcCommitChecked ticket [.storeRevisionEquals revision] operation mutations

/-! ## Collection -/

section Collect

variable [Hash]

section

variable (gc : GcState) (config : ServiceConfig) (entities : List MetaEntity)
  (node session : String) (completed : ℕ) (time : ℕ) (inventory : List ChunkObject)

/-- A node reports its progress: it stops being waited for, and with the last
one the pending chunks are gone. -/
def GcState.acknowledge (node : String) : GcState :=
  let waiting := gc.waitingNodes.filter fun value => decide (value ≠ node)
  { gc with
    waitingNodes := waiting
    chunks := if waiting.isEmpty then [] else gc.chunks }

/-- The state after a report, if the report is for the pending generation. -/
def GcState.report? (node : String) : Option GcState :=
  if completed = gc.generation ∧ node ∈ gc.waitingNodes then
    some (gc.acknowledge node)
  else
    none

/-- Adds a reported chunk that no record names yet. -/
def addInventory (chunk : ChunkObject) : Result (List MetaEntity) := do
  ensure chunk.validImmutableIdentity (invalid "GC inventory requires canonical content identities")
  let known := entities.any fun
    | .dfsChunk value => decide (value.id = chunk.id)
    | _ => false
  return if known then entities else entities ++ [.dfsChunk chunk]

/-- Nodes that must report before the next collection. -/
def registeredNodes : List String :=
  (ExtTreeSet.ofList (entities.filterMap fun
    | .nodeSession session => some session.nodeId
    | _ => none) : ExtTreeSet String).toList

/-- The next collection over the entities left after retirement and the
inventory. -/
def GcState.next (generation : ℕ) (entities : List MetaEntity)
    (plan : GcPlan) : GcState where
  generation := generation
  chunks := plan.chunks
  waitingNodes :=
    if plan.chunks.isEmpty then gc.waitingNodes else registeredNodes entities

/-- All entities of a published state, in key order. -/
def snapshotOf (view : State) : List MetaEntity := view.entities.values.map VersionedEntity.entity

/-- The mutations that retire the references of replaced sessions. -/
def retirePuts : List TxnMutation :=
  (entities.filterMap (retireReplaced entities node session time)).map putEntity

/-- The entities with those references retired. -/
def retireAll : List MetaEntity :=
  entities.map fun entity =>
    (retireReplaced entities node session time entity).getD entity

/-- What a collection deletes and adds, before its new generation. -/
def collectMutations (listed : List MetaEntity) (plan : GcPlan) : List TxnMutation :=
  retirePuts entities node session time ++
    (listed.drop entities.length).map putEntity ++ plan.keys.map deleteKey

/-- What a report changes while a collection is pending. -/
def reportMutations (reported : Option GcState) : List TxnMutation :=
  retirePuts entities node session time ++ reported.toList.map fun gc => putEntity (.dfsGc gc)

/-- One attempt: `none` asks for another one. -/
def collectAttempt (ticket : Ticket) : Service (Option GcState) := do
  let view ← look
  let entities := snapshotOf view
  liveCaller entities node session
  let gc := gcState entities
  let time ← now
  ensure (decide (completed ≤ gc.generation))
    (conflict "Meta GC generation is older than durable Node progress")
  if gc.waitingNodes.isEmpty then do
    let listed ← (inventory.foldlM addInventory
      (retireAll entities node session time) : Result (List MetaEntity))
    let later ← now
    let plan := planCollection listed (listed.filterMap entityReference?) later config.gcGraceMs
    let mutations := collectMutations entities node session time listed plan
    if mutations.isEmpty then
      return some gc
    else do
      let generation ← okOr (checkedAdd gc.generation 1) (conflict "GC generation exhausted")
      let gc := gc.next generation listed plan
      let committed ← gcCommit ticket view.revision .dfsCollectGarbage
        (mutations ++ [putEntity (.dfsGc gc)])
      return if committed then some gc else none
  else do
    let reported := gc.report? completed node
    let mutations := reportMutations entities node session time reported
    if mutations.isEmpty then
      return some gc
    else do
      let committed ← gcCommit ticket view.revision .dfsCollectGarbage mutations
      return if committed then some (reported.getD gc) else none

def collectAttempts (config : ServiceConfig) (node session : String)
    (completed : ℕ) (inventory : List ChunkObject) (tickets : ℕ → Ticket) : ℕ → Service GcState
  | 0 => fail (conflict "garbage collection contention")
  | attempts + 1 => do
      match ← collectAttempt config node session completed inventory
          (tickets attempts) with
      | some gc => return gc
      | none =>
        collectAttempts config node session completed inventory tickets attempts

def collectGarbage (tickets : ℕ → Ticket) : Service GcState := do
  ensure (!config.isExternalBackend) (invalid "native collection requires NodeReplicated storage")
  ensure (decide (inventory.length ≤ maxChunks)) (invalid "GC inventory batch too large")
  collectAttempts config node session completed inventory tickets 64

end

/-! ## What the collector offers -/

/-- The transactions a collector offers after looking at `view`. -/
inductive Collects (config : ServiceConfig) (Read : ℕ → Prop) (view : State) : MetaTxn → Prop where
  | report {node session time request completed} (hread : Read time)
      (hpending : (gcState (snapshotOf view)).waitingNodes ≠ []) :
      Collects config Read view (gcTxn request
        [.storeRevisionEquals view.revision] .dfsCollectGarbage
        (reportMutations (snapshotOf view) node session time
          ((gcState (snapshotOf view)).report? completed node)))
  | collect {node session time later generation request} {inventory : List ChunkObject}
      {listed plan} (hread : Read time) (hlater : Read later)
      (hidle : (gcState (snapshotOf view)).waitingNodes = [])
      (hlisted : inventory.foldlM addInventory
        (retireAll (snapshotOf view) node session time) = .ok listed)
      (hplan : plan = planCollection listed (listed.filterMap entityReference?)
        later config.gcGraceMs) : Collects config Read view (gcTxn request
        [.storeRevisionEquals view.revision] .dfsCollectGarbage
        (collectMutations (snapshotOf view) node session time listed plan ++
          [putEntity (.dfsGc ((gcState (snapshotOf view)).next generation listed plan))]))

variable {Seen : State → Prop} {Read : ℕ → Prop} {txn : MetaTxn}

variable {entities : List MetaEntity} {node session : String}

omit [Hash] in
@[simp]
lemma offers_liveCaller : ¬ (liveCaller entities node session).Offers Seen Read txn := by
  simp [liveCaller, Program.offers_bind]

omit [Hash] in
lemma offers_gcCommitChecked
    (hoffer : (gcCommitChecked ticket conditions operation mutations).Offers Seen Read txn) :
    ∃ request, txn = gcTxn request conditions operation mutations := by
  simp only [gcCommitChecked, Program.offers_bind, offers_now, false_or,
    offers_compareAndCommit] at hoffer
  obtain ⟨time, _, rfl | ⟨outcome, _, hrest⟩⟩ := hoffer
  · exact ⟨_, rfl⟩
  · cases outcome <;> simp at hrest

variable {inventory : List ChunkObject}

lemma offers_collectAttempt
    (hoffer : (collectAttempt config node session completed inventory ticket).Offers Seen Read
      txn) :
    ∃ view, Seen view ∧ Collects config Read view txn := by
  simp only [collectAttempt, Program.offers_bind, offers_look, offers_liveCaller,
    offers_now, offers_lift, returns_look, returns_now, false_or] at hoffer
  obtain ⟨view, hseen, _, _, time, hread, _, _, hoffer⟩ := hoffer
  refine ⟨view, hseen, ?_⟩
  split at hoffer
  next hidle =>
    simp only [Program.offers_bind, offers_lift, offers_now, returns_lift,
      returns_now, false_or] at hoffer
    obtain ⟨listed, hlist, later, hnext, hoffer⟩ := hoffer
    split at hoffer
    · simp at hoffer
    · simp only [Program.offers_bind, offers_lift, offers_pure, false_or,
        and_false, exists_false, or_false] at hoffer
      obtain ⟨generation, _, hoffer⟩ := hoffer
      obtain ⟨request, rfl⟩ := offers_gcCommitChecked hoffer
      exact .collect hread hnext (by simpa using hidle) hlist rfl
  next hpend =>
    split at hoffer
    · simp at hoffer
    · simp only [Program.offers_bind, offers_pure, and_false, exists_false, or_false] at hoffer
      obtain ⟨request, rfl⟩ := offers_gcCommitChecked hoffer
      exact .report hread (by simpa using hpend)

lemma offers_collectGarbage
    (hoffer : (collectGarbage config node session completed inventory tickets).Offers Seen Read
      txn) :
    ∃ view, Seen view ∧ Collects config Read view txn := by
  simp only [collectGarbage, Program.offers_bind, offers_lift, false_or] at hoffer
  obtain ⟨_, _, _, _, hoffer⟩ := hoffer
  generalize 64 = attempts at hoffer
  induction attempts with
  | zero => simp [collectAttempts] at hoffer
  | succ attempts ih =>
    simp only [collectAttempts, Program.offers_bind] at hoffer
    rcases hoffer with hoffer | ⟨result, _, hrest⟩
    · exact offers_collectAttempt hoffer
    · cases result with
      | none => exact ih hrest
      | some gc => simp at hrest

/-! ## Where the collected records come from -/

variable {time : ℕ}

omit [Hash] in
lemma mem_retireAll (hmem : entity ∈ retireAll entities node session time) :
    entity ∈ entities ∨ ∃ reference, entity = .dfsReference reference := by
  obtain ⟨original, horig, rfl⟩ := mem_map.mp hmem
  cases hdrop : retireReplaced entities node session time original with
  | none => exact .inl (by simpa using horig)
  | some retired =>
    unfold retireReplaced at hdrop
    split at hdrop
    · split at hdrop
      · exact .inr ⟨_, (Option.some.inj hdrop).symm⟩
      · cases hdrop
    · cases hdrop

variable {listed : List MetaEntity}

omit [Hash] in
lemma addInventory_append (hlist : inventory.foldlM addInventory entities = .ok listed) :
    ∃ chunks : List ChunkObject, listed = entities ++ chunks.map .dfsChunk := by
  induction inventory generalizing entities with
  | nil =>
    cases hlist
    exact ⟨[], by simp⟩
  | cons chunk inventory ih =>
    rw [foldlM_cons] at hlist
    obtain ⟨middle, hadd, hrest⟩ := bind_eq_ok.mp hlist
    obtain ⟨chunks, rfl⟩ := ih hrest
    obtain ⟨_, _, hadd⟩ := bind_eq_ok.mp hadd
    rw [pure_eq_ok] at hadd
    subst hadd
    split
    · exact ⟨chunks, rfl⟩
    · exact ⟨chunk :: chunks, by simp⟩

omit [Hash] in
lemma mem_retirePuts (hmem : mutation ∈ retirePuts entities node session time) :
    ∃ reference, mutation = putEntity (.dfsReference reference) := by
  obtain ⟨entity, hent, rfl⟩ := mem_map.mp hmem
  obtain ⟨original, _, hdrop⟩ := mem_filterMap.mp hent
  unfold retireReplaced at hdrop
  split at hdrop
  · split at hdrop
    · exact ⟨_, congrArg putEntity (Option.some.inj hdrop).symm⟩
    · cases hdrop
  · cases hdrop

omit [Hash] in
lemma length_retireAll (entities node session time) :
    (retireAll entities node session time).length = entities.length := by
  simp [retireAll]

omit [Hash] in
/-- What a collection writes: references, chunks and deletions of its plan. -/
lemma mem_collectMutations
    (hlist : inventory.foldlM addInventory (retireAll entities node session time) = .ok listed)
    (hmem : mutation ∈ collectMutations entities node session time listed plan) :
    (∃ reference, mutation = putEntity (.dfsReference reference)) ∨
      (∃ chunk, mutation = putEntity (.dfsChunk chunk)) ∨
      ∃ key ∈ plan.keys, mutation = deleteKey key := by
  simp only [collectMutations, mem_append] at hmem
  rcases hmem with (hdrop | hadded) | hdeleted
  · exact .inl (mem_retirePuts hdrop)
  · obtain ⟨chunks, rfl⟩ := addInventory_append hlist
    rw [← length_retireAll entities node session time, drop_left] at hadded
    simp only [map_map, mem_map] at hadded
    obtain ⟨chunk, _, rfl⟩ := hadded
    exact .inr (.inl ⟨chunk, rfl⟩)
  · obtain ⟨key, hkey, rfl⟩ := mem_map.mp hdeleted
    exact .inr (.inr ⟨key, hkey, rfl⟩)

omit [Hash] in
/-- Apart from references and chunks, the records a plan is made from are those
of the state. -/
lemma mem_listed
    (hlist : inventory.foldlM addInventory (retireAll entities node session time) = .ok listed)
    (hmem : entity ∈ listed) : entity ∈ entities ∨ (∃ reference, entity = .dfsReference reference) ∨
      ∃ chunk, entity = .dfsChunk chunk := by
  obtain ⟨chunks, rfl⟩ := addInventory_append hlist
  rcases mem_append.mp hmem with hret | hadded
  · rcases mem_retireAll hret with hent | hreference
    · exact .inl hent
    · exact .inr (.inl hreference)
  · obtain ⟨chunk, _, rfl⟩ := mem_map.mp hadded
    exact .inr (.inr ⟨chunk, rfl⟩)

end Collect

end AgentDx.Dfs
