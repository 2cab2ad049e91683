import AgentDx.Lib.Client
import AgentDx.Store.Effects

/-!
# The file service as clients of the store

Every operation of the file service reads the store, decides, and offers one
transaction at a time to `compare_and_commit`.  Its reads may be of different
published states and all of them may be outdated when the transaction is
decided; only the conditions of the transaction hold at that point.
-/

namespace AgentDx.Dfs

open Store Client Std

/-- An operation of the service. -/
abbrev Service := Program State MetaTxn (Result TxnOutcome) Error

/-! ## Errors -/

section

variable (message : String)

def invalid : Error := ⟨.metaCatalogInvalidRequest, message⟩
def conflict : Error := ⟨.metaDfsConflict, message⟩
def notFound : Error := ⟨.ioNotFound, message⟩
def notDirectory : Error := ⟨.ioNotDirectory, message⟩
def isDirectory : Error := ⟨.ioIsDirectory, message⟩
def directoryNotEmpty : Error := ⟨.ioDirectoryNotEmpty, message⟩
def alreadyExists : Error := ⟨.ioAlreadyExists, message⟩
def nameTooLong : Error := ⟨.ioNameTooLong, message⟩
def operationNotPermitted : Error := ⟨.ioOperationNotPermitted, message⟩
def permissionDenied : Error := ⟨.ioPermissionDenied, message⟩

def requireId (value field : String) : Result Unit :=
  ensure (!value.isEmpty) (invalid (field ++ " is required"))

end

/-! ## Reading and committing -/

/-- Reads one entity of the published state. -/
def read (key : MetaKey) : Service (Option MetaEntity) := do
  let state ← look
  return state.entity? key

/-- Reads the outcome recorded for a request. -/
def readOutcome (request : RequestKey) : Service (Option RequestOutcome) := do
  let state ← look
  return state.requests[request]?.map OwnedOutcome.outcome

def compareAndCommit (txn : MetaTxn) : Service TxnOutcome := do
  let outcome ← commit txn
  (outcome : Result TxnOutcome)

/-- A transaction of the service: a new request, its conditions and changes, and
last the outcome it records.  Buffers are taken at their exact size, since no
client observes the capacity accounting. -/
def serviceTxn (request : RequestKey) (operation : StoreOperation)
    (conditions : List TxnCondition) (mutations : List TxnMutation)
    (result : OperationResult) : MetaTxn where
  request := request
  operation := operation
  conditions := .requestAbsent request :: conditions
  mutations := mutations ++ [.recordRequestOutcome (.exact ⟨request, operation, result⟩)]

def putEntity (entity : MetaEntity) : TxnMutation := .put (.exact entity)
def deleteKey (key : MetaKey) : TxnMutation := .delete (.exact key)

@[simp]
lemma target?_putEntity (entity) : (putEntity entity).target? = some (entityKey entity) :=
  rfl

@[simp]
lemma target?_deleteKey (key) : (deleteKey key).target? = some key :=
  rfl

@[simp]
lemma target?_record (owned) : (TxnMutation.recordRequestOutcome owned).target? = none :=
  rfl

@[simp]
lemma leaves_putEntity (entity key held) : (putEntity entity).leaves key held =
      if entityKey entity = key then some entity else held :=
  rfl

@[simp]
lemma leaves_deleteKey (deleted key held) :
    (deleteKey deleted).leaves key held = if deleted = key then none else held :=
  rfl

@[simp]
lemma leaves_record (owned key held) :
    (TxnMutation.recordRequestOutcome owned).leaves key held = held :=
  rfl

/-! ## Outcomes -/

section

variable (outcome : TxnOutcome) (operation : StoreOperation)

/-- The outcome of this very operation, committed now or by an earlier attempt. -/
def storedOutcome (message : String) (outcome : TxnOutcome)
    (operation : StoreOperation) : Result RequestOutcome :=
  match outcome with
  | .committed _ stored =>
    if stored.operation = operation then
      .ok stored
    else
      .error (invalid "DFS metadata operation returned an invalid outcome")
  | .conditionFailed _ (some stored) =>
    if stored.operation = operation then
      .ok stored
    else
      .error (conflict message)
  | .conditionFailed _ none => .error (conflict message)

def inodeOutcome : Result InodeRecord := do
  let stored ← storedOutcome "DFS metadata condition changed during commit" outcome operation
  match stored.result with
  | .dfsInode inode => return inode
  | _ => .error (invalid "DFS metadata operation replayed the wrong result")

def leaseOutcome : Result WriteLease := do
  let stored ← storedOutcome "DFS metadata condition changed during lease update" outcome operation
  match stored.result with
  | .dfsWriteLease lease => return lease
  | _ => .error (invalid "DFS metadata operation replayed the wrong result")

def inodeAndLeaseOutcome : Result (InodeRecord × WriteLease) := do
  let stored ← storedOutcome "DFS metadata condition changed during create" outcome operation
  match stored.result with
  | .dfsInodeWithLease inode lease => return (inode, lease)
  | _ => .error (invalid "DFS metadata operation replayed the wrong result")

def renameOutcome : Result RenameOutcome := do
  let stored ← storedOutcome "DFS metadata condition changed during rename" outcome operation
  match stored.result with
  | .dfsRename value => return value
  | _ => .error (invalid "DFS metadata operation replayed the wrong result")

/-- The result recorded for a request of this operation. -/
def replayedResult (callerId : String) (operationId : OperationId)
    (operation : StoreOperation) : Service (Option OperationResult) := do
  match ← readOutcome ⟨callerId, operationId⟩ with
  | none => return none
  | some outcome => do
      ensure (decide (outcome.operation = operation))
        (invalid "DFS operation_id was already used for another operation")
      return some outcome.result

end

/-! ## Inodes -/

def rootInode (namespaceId : NamespaceId) : InodeRecord where
  namespaceId := namespaceId
  inodeId := "1"
  kind := .directory
  attributes := ⟨0o755, 0, 0, 2, 0, 0, 0⟩
  headVersion := none
  symlinkTarget := none
  xattrs := []
  revision := 1

def getInode (inodeId : InodeId) : Service InodeRecord := do
  requireId inodeId "inode_id"
  match ← read (.dfsInode inodeId) with
  | some (.dfsInode inode) => return inode
  | none =>
    if inodeId = "1" then
      return rootInode "default"
    else
      fail ⟨.nodeVfsNotFound, "DFS inode was not found"⟩
  | _ => fail ⟨.nodeVfsNotFound, "DFS inode was not found"⟩

/-! ## Reading offers nothing -/

section Reads

variable {Seen : State → Prop} {Read : ℕ → Prop} {txn : MetaTxn}

@[simp]
lemma offers_read : ¬ (read key).Offers Seen Read txn := by
  simp [read, Program.offers_bind]

@[simp]
lemma returns_read :
    (read key).Returns Seen Read entity ↔ ∃ view, Seen view ∧ view.entity? key = entity := by
  simp [read, Program.returns_bind]

@[simp]
lemma offers_readOutcome : ¬ (readOutcome request).Offers Seen Read txn := by
  simp [readOutcome, Program.offers_bind]

@[simp]
lemma offers_replayedResult :
    ¬ (replayedResult callerId operationId operation).Offers Seen Read txn := by
  simp only [replayedResult, Program.offers_bind, offers_readOutcome, false_or]
  rintro ⟨outcome, _, hrest⟩
  revert hrest
  cases outcome <;> simp [Program.offers_bind]

@[simp]
lemma offers_getInode : ¬ (getInode inodeId).Offers Seen Read txn := by
  simp only [getInode, Program.offers_bind, offers_lift, offers_read, false_or]
  rintro ⟨_, _, entity, _, hrest⟩
  revert hrest
  split
  · simp
  · split <;> simp
  · simp

/-- The record found for an inode; the root is found even before it is
stored. -/
lemma returns_getInode (hreturns : (getInode inodeId).Returns Seen Read inode) :
    (∃ view, Seen view ∧ view.entity? (.dfsInode inodeId) = some (.dfsInode inode)) ∨
    (inodeId = "1" ∧ inode = rootInode "default") := by
  simp only [getInode, Program.returns_bind, returns_read] at hreturns
  obtain ⟨_, _, entity, ⟨view, hseen, hent⟩, hrest⟩ := hreturns
  split at hrest
  · simp only [returns_pure] at hrest
    exact .inl ⟨view, hseen, hrest ▸ hent⟩
  · split at hrest
    next hroot =>
      simp only [returns_pure] at hrest
      exact .inr ⟨hroot, hrest.symm⟩
    · simp at hrest
  · simp at hrest

@[simp]
lemma offers_compareAndCommit :
    (compareAndCommit offered).Offers Seen Read txn ↔ txn = offered := by
  simp [compareAndCommit, Program.offers_bind]

end Reads

/-! ## Decisions of the store -/

/-- What publishing a decided transaction fixes.  Retention may run in the same
turn and retire outcomes and events, so only the authority is determined. -/
structure Published (applied next : State) : Prop where
  entities_eq : next.entities = applied.entities
  revision_eq : next.revision = applied.revision

/-- The store decides a transaction: it applies it, finds a condition violated,
or refuses it with an error and changes nothing. -/
inductive Decides [Footprint] (_clock : ℕ) (state : State) (txn : MetaTxn) :
    State → Result TxnOutcome → Prop where
  | decided {readings applied next outcome}
      (happly : state.applyTxn readings txn = .ok (applied, outcome))
      (hpublished : Published applied next) : Decides _clock state txn next (.ok outcome)
  | refused (error) : Decides _clock state txn state (.error error)

/-- A committed decision has the effect of its transaction; every other
decision changes no entity. -/
lemma Decides.cases [Footprint] (hdec : Decides clock state txn next outcome) :
    (next.entities = state.entities ∧ next.revision = state.revision ∧
      ∀ revision reply, outcome ≠ .ok (.committed revision reply)) ∨
    (∃ revision reply, outcome = .ok (.committed revision reply) ∧ Commits state txn next) := by
  cases hdec with
  | @decided readings applied _ outcome happ hpub =>
    obtain ⟨hents, hrev⟩ := hpub
    cases outcome with
    | committed revision reply =>
      obtain ⟨hmatched, hmoves, hact⟩ := State.applyTxn_commits happ
      refine .inr ⟨revision, reply, rfl, hmatched, ?_, fun key => ?_⟩
      · rw [hrev, hmoves]
      · rw [hents, hact key, hrev]
    | conditionFailed revision existing =>
      obtain ⟨rfl, _⟩ := State.applyTxn_conditionFailed happ
      exact .inl ⟨hents, hrev, by simp⟩
  | refused error => exact .inl ⟨rfl, rfl, by simp⟩

/-- The decision of an undisturbed store: it publishes what it applied. -/
def decideAt [Footprint] (clock : ℕ) (state : State) (txn : MetaTxn) : State × Result TxnOutcome :=
  match state.applyTxn (fun _ => clock) txn with
  | .ok (next, outcome) => (next, .ok outcome)
  | .error error => (state, .error error)

lemma decides_decideAt [Footprint] (clock state txn) :
    Decides clock state txn (decideAt clock state txn).1
      (decideAt clock state txn).2 := by
  unfold decideAt
  split
  next next outcome happ =>
    exact .decided happ ⟨rfl, rfl⟩
  · exact .refused _

/-! ## The rest of the system -/

/-- The keys owned by the file service. -/
def ownsKey : MetaKey → Bool
  | .dfsDentry _ | .dfsInode _ | .dfsFileVersion _ | .dfsLayoutRoot _
  | .dfsChunk _ | .dfsReplicationConfig | .dfsDurabilityPolicy
  | .dfsPlacement _ | .dfsCopy _ | .dfsReplicationTask _ | .dfsWriteLease _
  | .dfsReference _ _ _ | .dfsGc => true
  | _ => false

/-- Everything else that publishes: node registrations and the other services
advance the revision, leave the keys of the file service alone and store none of
its entities; retention leaves every entity alone. -/
structure Background (state next : State) : Prop where
  owned_eq : ∀ key : MetaKey, ownsKey key = true → next.entities[key]? = state.entities[key]?
  foreign : ∀ key entity, ownsKey key = false →
    next.entity? key = some entity → ownsKey (entityKey entity) = false
  revision_eq : next.revision = nextRevision state.revision ∨
    next.revision = state.revision ∧ next.entities = state.entities

/-- Every entity of the file service is stored under its own key. -/
def WellKeyed (state : State) : Prop :=
  ∀ key entity, state.entity? key = some entity →
    ownsKey key = true ∨ ownsKey (entityKey entity) = true → entityKey entity = key

lemma WellKeyed.commits (hkeys : WellKeyed state) (hcom : Commits state txn next) :
    WellKeyed next := by
  intro key entity hent howned
  rw [hcom.entity?] at hent
  rcases leavesAll_eq_some hent with hheld | ⟨_, _, _, hkey⟩
  · exact hkeys key entity hheld howned
  · exact hkey

lemma WellKeyed.decides [Footprint] (hkeys : WellKeyed state)
    (hdec : Decides clock state txn next outcome) : WellKeyed next := by
  rcases hdec.cases with ⟨hents, _⟩ | ⟨_, _, _, hcom⟩
  · intro key entity hent
    rw [State.entity?, hents] at hent
    exact hkeys key entity hent
  · exact hkeys.commits hcom

lemma WellKeyed.background (hkeys : WellKeyed state)
    (hback : Background state next) : WellKeyed next := by
  intro key entity hent howned
  cases hkey : ownsKey key with
  | true =>
    rw [State.entity?, hback.owned_eq key hkey] at hent
    exact hkeys key entity hent (.inl hkey)
  | false =>
    have hforeign := hback.foreign key entity hkey hent
    simp [hkey, hforeign] at howned

end AgentDx.Dfs
