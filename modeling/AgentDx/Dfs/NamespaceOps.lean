import AgentDx.Dfs.Namespace

/-!
# The operations that change a directory tree

Creating, linking, removing and renaming entries.  The record of every directory
whose entries change is read first, pinned by the transaction and written back
with its new link count.
-/

namespace AgentDx.Dfs

open Store Client Std Word

/-! ## Parents -/

section

variable (namespaceId : NamespaceId) (inode : InodeRecord) (dentry : Dentry) (parent : InodeId)

/-- The transaction that stores the root directory of a namespace. -/
def rootTxn : MetaTxn :=
  serviceTxn ⟨"afs-meta", "dfs-namespace-root:" ++ namespaceId⟩
    .dfsInitializeNamespace [.missing (.dfsInode "1")]
    [putEntity (.dfsInode (rootInode namespaceId))]
    (.dfsInode (rootInode namespaceId))

/-- Stores the root when there is none; a concurrent initializer may win. -/
def initializeRoot : Service Unit := do
  match ← read (.dfsInode "1") with
  | some _ => return ()
  | none => do
      let _ ← compareAndCommit (rootTxn namespaceId)
      return ()

def ensureNamespaceRoot : Service InodeRecord := do
  initializeRoot namespaceId
  let inode ← getInode "1"
  ensure (decide (inode.namespaceId = namespaceId))
    (invalid "DFS root already belongs to another configured namespace")
  return inode

def parentInode : Service InodeRecord :=
  if parent = "1" then ensureNamespaceRoot namespaceId else getInode parent

/-- The record of a directory that is about to change; every successful path of
the source returns one. -/
def directoryForMutation : Service InodeRecord := do
  let inode ← parentInode namespaceId parent
  ensure (decide (inode.kind = .directory) && decide (inode.namespaceId = namespaceId))
    (notDirectory "DFS parent is not a directory in this namespace")
  ensure (decide (inode.attributes.nlink ≠ 0)) (notFound "DFS namespace parent has been removed")
  return inode

/-- Link counts are 32-bit and saturate. -/
def adjustLinks (nlink : ℕ) (delta : ℤ) : ℕ :=
  if 0 ≤ delta then min (nlink + delta.toNat) (2 ^ 32 - 1)
  else nlink - delta.natAbs

/-- The parent record after an entry of it changed. -/
def changedParent (parent : InodeRecord) (delta : ℤ) (time : ℕ) : InodeRecord :=
  { parent with
    attributes := { parent.attributes with
      mtimeUnixMs := time
      ctimeUnixMs := time
      nlink := adjustLinks parent.attributes.nlink delta }
    revision := saturatingAdd parent.revision 1 }

/-- An inode after its link count changed. -/
def relinked (nlink time : ℕ) : InodeRecord :=
  { inode with
    attributes := { inode.attributes with nlink := nlink, ctimeUnixMs := time }
    revision := saturatingAdd inode.revision 1 }

def pinInode : TxnCondition := .entityEquals (.dfsInode inode)

def pinDentry : TxnCondition := .entityEquals (.dfsDentry dentry)

def putInode : TxnMutation := putEntity (.dfsInode inode)

def putDentry : TxnMutation := putEntity (.dfsDentry dentry)

end

/-! ## New inodes -/

/-- The transaction that adds a new inode under a new name.  `more` are the
further entities it stores, each under the condition that its key is free. -/
def childTxn (request : RequestKey) (operation : StoreOperation)
    (parent changed inode : InodeRecord) (key : DentryKey)
    (more : List MetaEntity) (result : OperationResult) : MetaTxn :=
  serviceTxn request operation
    ([.missing (.dfsDentry key), .missing (.dfsInode inode.inodeId)] ++
      (more.map fun entity => .missing (entityKey entity)) ++ [pinInode parent])
    ([putInode changed, putDentry ⟨key, inode.inodeId⟩, putInode inode] ++ more.map putEntity)
    result

section Operations

variable [Hash] [RequestCodec]

def createInode (request : CreateFileRequest) : InodeRecord where
  namespaceId := request.namespaceId
  inodeId := namespaceInodeId request.callerId request.operationId
  kind := .regular
  attributes := request.attributes
  headVersion := none
  symlinkTarget := none
  xattrs := []
  revision := 1

def createKey (request : CreateFileRequest) : DentryKey :=
  ⟨request.namespaceId, request.parentInodeId, request.name⟩

/-- The parent changed only as concurrent creations change it. -/
def createParentRetryDriftOnly (previous current : InodeRecord) : Bool :=
  decide (previous ≠ current) && decide (previous.namespaceId = current.namespaceId) &&
    decide (previous.inodeId = current.inodeId) &&
    decide (previous.kind = .directory) && decide (current.kind = .directory) &&
    decide (previous.headVersion = current.headVersion) &&
    decide (previous.symlinkTarget = current.symlinkTarget) &&
    decide (previous.xattrs = current.xattrs) &&
    decide (previous.attributes.mode = current.attributes.mode) &&
    decide (previous.attributes.uid = current.attributes.uid) &&
    decide (previous.attributes.gid = current.attributes.gid) &&
    decide (previous.attributes.nlink = current.attributes.nlink) &&
    decide (previous.attributes.atimeUnixMs = current.attributes.atimeUnixMs) &&
    decide (previous.revision < current.revision) &&
    decide (previous.attributes.mtimeUnixMs ≤ current.attributes.mtimeUnixMs) &&
    decide (previous.attributes.ctimeUnixMs ≤ current.attributes.ctimeUnixMs)

def retryableCreateParentDrift (namespaceId : NamespaceId)
    (parentInodeId : InodeId) (key : DentryKey) (inodeId : InodeId)
    (previous : InodeRecord) : Service (Option InodeRecord) := do
  let dentry ← read (.dfsDentry key)
  let inode ← read (.dfsInode inodeId)
  let lease ← read (.dfsWriteLease inodeId)
  if dentry.isSome || inode.isSome || lease.isSome then
    return none
  else do
    let current ← directoryForMutation namespaceId parentInodeId
    return if createParentRetryDriftOnly previous current then some current
      else none

def createAttempts (request : CreateFileRequest) (digest : Digest)
    (lease : WriteLease) : ℕ → InodeRecord → Service (InodeRecord × WriteLease)
  | 0, _ => fail (conflict
      "DFS create parent changed repeatedly during bounded retry")
  | attempts + 1, parent => do
      let inode := createInode request
      let time ← now
      let outcome ← compareAndCommit (childTxn
        ⟨request.callerId, request.operationId⟩ .dfsCreate parent
        (changedParent parent 0 time) inode (createKey request)
        [.dfsWriteLease lease]
        (.dfsNamespace digest (.dfsInodeWithLease inode lease)))
      let outcome ← validateNamespaceOutcome outcome digest
      match inodeAndLeaseOutcome outcome .dfsCreate with
      | .ok created => return created
      | .error error =>
        if error.code = .metaDfsConflict then do
          match ← replayedNamespaceInodeAndLease request.callerId
              request.operationId .dfsCreate digest with
          | some created => return created
          | none => do
              match ← retryableCreateParentDrift request.namespaceId
                  request.parentInodeId (createKey request) inode.inodeId
                  parent with
              | none => fail error
              | some current =>
                createAttempts request digest lease attempts current
        else
          fail error

def create (request : CreateFileRequest) : Service (InodeRecord × WriteLease) := do
  let digest ← namespaceRequestDigest (.create request)
  requireId request.callerId "caller_id"
  requireId request.ownerSessionId "owner_session_id"
  requireId request.operationId "operation_id"
  requireId request.namespaceId "namespace_id"
  requireId request.parentInodeId "parent_inode_id"
  match ← replayedNamespaceInodeAndLease request.callerId request.operationId
      .dfsCreate digest with
  | some created => return created
  | none => do
      validateName request.name
      let expiry ← leaseExpiry request.leaseSeconds
      let lease : WriteLease := {
        inodeId := (createInode request).inodeId
        ownerNodeId := request.callerId
        ownerSessionId := request.ownerSessionId
        leaseEpoch := 1
        expiresAtUnixMs := expiry }
      let parent ← directoryForMutation request.namespaceId request.parentInodeId
      createAttempts request digest lease 64 parent

def mkdir (request : MkdirRequest) : Service InodeRecord := do
  let digest ← namespaceRequestDigest (.mkdir request)
  requireId request.callerId "caller_id"
  requireId request.operationId "operation_id"
  requireId request.namespaceId "namespace_id"
  requireId request.parentInodeId "parent_inode_id"
  match ← replayedNamespaceInode request.callerId request.operationId .dfsMkdir
      digest with
  | some inode => return inode
  | none => do
      validateName request.name
      let parent ← directoryForMutation request.namespaceId request.parentInodeId
      ensureDirectoryCreateAccess request.caller parent
      let inode : InodeRecord := {
        namespaceId := request.namespaceId
        inodeId := namespaceInodeId request.callerId request.operationId
        kind := .directory
        attributes := { request.attributes with
          uid := request.caller.uid
          gid := inheritedChildGid request.caller parent
          mode := if setGidBit parent then request.attributes.mode ||| 0o2000
            else request.attributes.mode
          nlink := 2 }
        headVersion := none
        symlinkTarget := none
        xattrs := []
        revision := 1 }
      let time ← now
      let outcome ← compareAndCommit (childTxn
        ⟨request.callerId, request.operationId⟩ .dfsMkdir parent
        (changedParent parent 1 time) inode
        ⟨request.namespaceId, request.parentInodeId, request.name⟩ []
        (.dfsNamespace digest (.dfsInode inode)))
      let outcome ← validateNamespaceOutcome outcome digest
      inodeOutcome outcome .dfsMkdir

/-- Device nodes need a privileged caller and a 32-bit device number. -/
def ensureDeviceAllowed (caller : CallerContext) : SpecialNodeKind → Result Unit
  | .blockDevice rdev | .charDevice rdev => do
      ensure (decide (caller.uid = 0)) (operationNotPermitted
        "DFS device inode creation requires a privileged caller")
      ensure (decide (rdev < 2 ^ 32))
        (invalid "DFS device number exceeds the FUSE representable range")
  | .fifo | .socket => .ok ()

def mknod (request : MknodRequest) : Service InodeRecord := do
  let digest ← namespaceRequestDigest (.mknod request)
  requireId request.callerId "caller_id"
  requireId request.operationId "operation_id"
  requireId request.namespaceId "namespace_id"
  requireId request.parentInodeId "parent_inode_id"
  match ← replayedNamespaceInode request.callerId request.operationId .dfsMknod
      digest with
  | some inode => return inode
  | none => do
      validateName request.name
      let parent ← directoryForMutation request.namespaceId request.parentInodeId
      ensureDirectoryCreateAccess request.caller parent
      ensureDeviceAllowed request.caller request.kind
      let created ← now
      let inode : InodeRecord := {
        namespaceId := request.namespaceId
        inodeId := namespaceInodeId request.callerId request.operationId
        kind := .special request.kind
        attributes := { request.attributes with
          uid := request.caller.uid
          gid := inheritedChildGid request.caller parent
          nlink := 1
          atimeUnixMs := created
          mtimeUnixMs := created
          ctimeUnixMs := created }
        headVersion := none
        symlinkTarget := none
        xattrs := []
        revision := 1 }
      let time ← now
      let outcome ← compareAndCommit (childTxn
        ⟨request.callerId, request.operationId⟩ .dfsMknod parent
        (changedParent parent 0 time) inode
        ⟨request.namespaceId, request.parentInodeId, request.name⟩ []
        (.dfsNamespace digest (.dfsInode inode)))
      let outcome ← validateNamespaceOutcome outcome digest
      inodeOutcome outcome .dfsMknod

def symlink (request : SymlinkRequest) : Service InodeRecord := do
  let digest ← namespaceRequestDigest (.symlink request)
  requireId request.callerId "caller_id"
  requireId request.operationId "operation_id"
  requireId request.namespaceId "namespace_id"
  requireId request.parentInodeId "parent_inode_id"
  match ← replayedNamespaceInode request.callerId request.operationId
      .dfsSymlink digest with
  | some inode => return inode
  | none => do
      validateName request.name
      validateSymlinkTarget request.target
      let parent ← directoryForMutation request.namespaceId request.parentInodeId
      ensureDirectoryCreateAccess request.caller parent
      let inode : InodeRecord := {
        namespaceId := request.namespaceId
        inodeId := namespaceInodeId request.callerId request.operationId
        kind := .symlink
        attributes := { request.attributes with
          uid := request.caller.uid
          gid := inheritedChildGid request.caller parent
          nlink := 1 }
        headVersion := none
        symlinkTarget := some request.target
        xattrs := []
        revision := 1 }
      let time ← now
      let outcome ← compareAndCommit (childTxn
        ⟨request.callerId, request.operationId⟩ .dfsSymlink parent
        (changedParent parent 0 time) inode
        ⟨request.namespaceId, request.parentInodeId, request.name⟩ []
        (.dfsNamespace digest (.dfsInode inode)))
      let outcome ← validateNamespaceOutcome outcome digest
      inodeOutcome outcome .dfsSymlink

/-! ## Links -/

/-- The transaction that adds a name to an existing inode. -/
def linkTxn (request : RequestKey) (parent changed original linked : InodeRecord)
    (key : DentryKey) (digest : Digest) : MetaTxn :=
  serviceTxn request .dfsLink
    [.missing (.dfsDentry key), pinInode original, pinInode parent]
    [putInode changed, putDentry ⟨key, original.inodeId⟩, putInode linked]
    (.dfsNamespace digest (.dfsInode linked))

def link (request : LinkRequest) : Service InodeRecord := do
  let digest ← namespaceRequestDigest (.link request)
  requireId request.callerId "caller_id"
  requireId request.operationId "operation_id"
  requireId request.namespaceId "namespace_id"
  requireId request.existingInodeId "existing_inode_id"
  requireId request.parentInodeId "parent_inode_id"
  match ← replayedNamespaceInode request.callerId request.operationId .dfsLink
      digest with
  | some inode => return inode
  | none => do
      validateName request.name
      let parent ← directoryForMutation request.namespaceId request.parentInodeId
      ensureDirectoryCreateAccess request.caller parent
      let view ← look
      let inode ← inodeFromView view request.namespaceId request.existingInodeId
      ensure (decide (inode.kind ≠ .directory)) (operationNotPermitted
        "DFS hardlink target cannot be a directory")
      ensure (decide (inode.attributes.nlink ≠ 0))
        (notFound "DFS hardlink target is no longer linked")
      ensure (decide (inode.revision = request.expectedInodeRevision))
        (conflict "DFS hardlink target inode revision changed")
      let linkedAt ← now
      let linked := relinked inode (adjustLinks inode.attributes.nlink 1) linkedAt
      let time ← now
      let outcome ← compareAndCommit (linkTxn
        ⟨request.callerId, request.operationId⟩ parent
        (changedParent parent 0 time) inode linked
        ⟨request.namespaceId, request.parentInodeId, request.name⟩ digest)
      let outcome ← validateNamespaceOutcome outcome digest
      inodeOutcome outcome .dfsLink

/-! ## Removal -/

section

variable (request : UnlinkRequest) (directory : Bool)

def removeOperation : StoreOperation :=
  if directory then .dfsRmdir else .dfsUnlink

/-- The link count a removal leaves. -/
def removedLinks (nlink : ℕ) : ℕ :=
  if directory then 0 else nlink - 1

/-- The transaction that removes one name of an inode. -/
def removeTxn (request : RequestKey) (directory : Bool) (key : DentryKey)
    (dentry : Dentry) (original removed parent changed : InodeRecord)
    (digest : Digest) : MetaTxn :=
  serviceTxn request (removeOperation directory)
    ([pinDentry dentry, pinInode original] ++
      (if directory then [.dfsDirectoryEmpty key.namespaceId original.inodeId]
        else []) ++ [pinInode parent])
    [deleteKey (.dfsDentry key), putInode removed, putInode changed]
    (.dfsNamespace digest (.dfsInode removed))

/-- The target has the kind the operation removes. -/
def ensureRemovable (view : State) (namespaceId : NamespaceId)
    (directory : Bool) (inode : InodeRecord) : Result Unit :=
  if directory then do
    ensure (decide (inode.kind = .directory)) (notDirectory "DFS rmdir target is not a directory")
    ensure (directoryEntriesFromView view namespaceId inode.inodeId).isEmpty
      (directoryNotEmpty "DFS rmdir target is not empty")
  else
    ensure (decide (inode.kind ≠ .directory)) (isDirectory "DFS unlink target is a directory")

/-- One attempt; without a result it returns the inode to stay with. -/
def removeNamespaceEntryAttempt
    (expected : Option InodeId) : Service (InodeRecord ⊕ InodeId) := do
  let digest ← namespaceRequestDigest (.unlink request)
  requireId request.callerId "caller_id"
  requireId request.operationId "operation_id"
  requireId request.namespaceId "namespace_id"
  requireId request.parentInodeId "parent_inode_id"
  let operation := removeOperation directory
  match ← replayedNamespaceInode request.callerId request.operationId operation
      digest with
  | some inode => return .inl inode
  | none => do
      validateName request.name
      let parent ← directoryForMutation request.namespaceId request.parentInodeId
      ensureDirectoryCreateAccess request.caller parent
      let key : DentryKey := ⟨request.namespaceId, request.parentInodeId, request.name⟩
      let view ← look
      let dentry ← okOr (dentryFromView view key) (notFound "DFS namespace entry was not found")
      ensure (expected.all fun inodeId => decide (inodeId = dentry.inodeId))
        ⟨.metaDfsNamespaceRetry, "DFS removal target was replaced during retry"⟩
      let inode ← inodeFromView view request.namespaceId dentry.inodeId
      ensureRemovable view request.namespaceId directory inode
      ensureStickyParentAllows request.caller parent inode
      let removedAt ← now
      let removed := relinked inode (removedLinks directory inode.attributes.nlink) removedAt
      let time ← now
      let outcome ← compareAndCommit (removeTxn
        ⟨request.callerId, request.operationId⟩ directory key dentry inode removed
        parent (changedParent parent (if directory then -1 else 0) time) digest)
      let outcome ← validateNamespaceOutcome outcome digest
      match outcome with
      | .conditionFailed _ none => return .inr dentry.inodeId
      | outcome => do
          let inode ← inodeOutcome outcome operation
          return .inl inode

def removeAttempts (request : UnlinkRequest) (directory : Bool) :
    ℕ → Option InodeId → Service InodeRecord
  | 0, _ => fail ⟨.metaDfsNamespaceRetry,
      "DFS namespace changed repeatedly during bounded removal retry"⟩
  | attempts + 1, expected => do
      match ← removeNamespaceEntryAttempt request directory expected with
      | .inl inode => return inode
      | .inr inodeId => removeAttempts request directory attempts (some inodeId)

def unlink : Service InodeRecord := removeAttempts request false 64 none

def rmdir : Service InodeRecord := removeAttempts request true 64 none

end

/-! ## Renaming -/

/-- A rename onto itself only records its outcome. -/
def renameNoopTxn (request : RequestKey) (dentry : Dentry) (inode : InodeRecord)
    (digest : Digest) : MetaTxn :=
  serviceTxn request .dfsRename [pinDentry dentry, pinInode inode] []
    (.dfsNamespace digest (.dfsRename ⟨inode, none⟩))

def recordRenameNoop (request : RequestKey) (dentry : Dentry)
    (inode : InodeRecord) (digest : Digest) : Service RenameOutcome := do
  let outcome ← compareAndCommit (renameNoopTxn request dentry inode digest)
  let outcome ← validateNamespaceOutcome outcome digest
  renameOutcome outcome .dfsRename

/-- The entry a rename replaces: its record, its inode as read and as left. -/
structure Replaced where
  dentry : Dentry
  original : InodeRecord
  removed : InodeRecord

/-- A parent whose entries a rename changes. -/
structure ParentChange where
  parent : InodeRecord
  delta : ℤ
  time : ℕ

section

variable (change : ParentChange) (request : RenameRequest) (digest : Digest) (view : State)

def ParentChange.pin : TxnCondition := pinInode change.parent

def ParentChange.put : TxnMutation :=
  putInode (changedParent change.parent change.delta change.time)

/-- The transaction of a rename. -/
def renameTxn (request : RequestKey) (dentry : Dentry)
    (source renamed : InodeRecord) (oldKey newKey : DentryKey)
    (replaced : Option Replaced) (parents : List ParentChange)
    (digest : Digest) : MetaTxn :=
  let moving := decide (source.kind = .directory)
  serviceTxn request .dfsRename
    ([pinDentry dentry, pinInode source] ++ (match replaced with
        | none => [.missing (.dfsDentry newKey)]
        | some target => [pinDentry target.dentry]) ++
      (if moving then [.dfsNotDescendant newKey.namespaceId source.inodeId
        newKey.parentInodeId] else []) ++ (match replaced with
        | none => []
        | some target =>
          (if moving || decide (target.removed.kind = .directory) then
            [.dfsDirectoryEmpty newKey.namespaceId target.removed.inodeId]
          else []) ++ [pinInode target.original]) ++ parents.map ParentChange.pin)
    ([deleteKey (.dfsDentry oldKey)] ++ (match replaced with
        | none => []
        | some target =>
          [deleteKey (.dfsDentry target.dentry.key), putInode target.removed]) ++
      [putDentry ⟨newKey, source.inodeId⟩, putInode renamed] ++ parents.map ParentChange.put)
    (.dfsNamespace digest (.dfsRename ⟨renamed, replaced.map Replaced.removed⟩))

/-- The kinds agree and a replaced directory is empty. -/
def ensureReplaceable (namespaceId : NamespaceId) (source target : InodeRecord) : Result Unit :=
  if source.kind = .directory ∨ target.kind = .directory then do
    ensure (!(decide (source.kind = .directory) && decide (target.kind ≠ .directory)))
      (notDirectory "DFS rename cannot replace a directory with a non-directory")
    ensure (!(decide (source.kind ≠ .directory) && decide (target.kind = .directory)))
      (isDirectory "DFS rename cannot replace a non-directory with a directory")
    ensure (directoryEntriesFromView view namespaceId target.inodeId).isEmpty
      (directoryNotEmpty "DFS rename cannot replace a non-empty directory")
  else
    .ok ()

/-- The parents a rename changes and by how many subdirectories. -/
def renameParents (samePlace moving replacing : Bool)
    (oldParent newParent : InodeRecord) (first second : ℕ) : List ParentChange :=
  if samePlace then
    [⟨oldParent, if replacing then -1 else 0, first⟩]
  else
    [⟨oldParent, if moving then -1 else 0, first⟩,
      ⟨newParent, (if moving then 1 else 0) - (if replacing then 1 else 0), second⟩]

/-- Commits the rename of a found source over an optional target. -/
def commitRename
    (oldParent newParent : InodeRecord) (dentry : Dentry) (source : InodeRecord)
    (target : Option (Dentry × InodeRecord)) : Service RenameOutcome := do
  let oldKey : DentryKey := ⟨request.namespaceId, request.oldParentInodeId, request.oldName⟩
  let newKey : DentryKey := ⟨request.namespaceId, request.newParentInodeId, request.newName⟩
  let renamedAt ← now
  let renamed := relinked source source.attributes.nlink renamedAt
  let removedAt ← now
  let replaced ← (target.mapM fun found => do
    let directory := decide (found.2.kind = .directory)
    let removed := relinked found.2 (removedLinks directory found.2.attributes.nlink) removedAt
    let original ← inodeFromView view request.namespaceId found.2.inodeId
    return ⟨found.1, original, removed⟩ : Result (Option Replaced))
  let first ← now
  let second ← now
  let parents := renameParents
    (decide (request.oldParentInodeId = request.newParentInodeId))
    (decide (source.kind = .directory))
    (target.any fun found => decide (found.2.kind = .directory))
    oldParent newParent first second
  let outcome ← compareAndCommit (renameTxn
    ⟨request.callerId, request.operationId⟩ dentry source renamed oldKey newKey
    replaced parents digest)
  let outcome ← validateNamespaceOutcome outcome digest
  renameOutcome outcome .dfsRename

/-- The rename of a found source: a no-op, a plain move or a replacement. -/
def renameFound
    (oldParent newParent : InodeRecord) (dentry : Dentry)
    (source : InodeRecord) : Service RenameOutcome := do
  let requestKey : RequestKey := ⟨request.callerId, request.operationId⟩
  let newKey : DentryKey := ⟨request.namespaceId, request.newParentInodeId, request.newName⟩
  let target := dentryFromView view newKey
  if request.oldParentInodeId = request.newParentInodeId ∧ request.oldName = request.newName then
    recordRenameNoop requestKey dentry source digest
  else do
    ensure (!(decide (source.kind = .directory) &&
        directoryIsDescendantOrSame view request.namespaceId source.inodeId
          request.newParentInodeId))
      (invalid "DFS cannot rename a directory below itself")
    ensure (!(target.isSome && decide (request.mode = .noReplace)))
      (alreadyExists "DFS rename target already exists")
    match target with
    | none =>
      commitRename request digest view oldParent newParent dentry source none
    | some found => do
        let inode ← inodeFromView view request.namespaceId found.inodeId
        ensureStickyParentAllows request.caller newParent inode
        if inode.inodeId = source.inodeId then
          recordRenameNoop requestKey dentry source digest
        else do
          ensureReplaceable view request.namespaceId source inode
          commitRename request digest view oldParent newParent dentry source (some (found, inode))

def rename (request : RenameRequest) : Service RenameOutcome := do
  let digest ← namespaceRequestDigest (.rename request)
  requireId request.callerId "caller_id"
  requireId request.operationId "operation_id"
  requireId request.namespaceId "namespace_id"
  requireId request.oldParentInodeId "old_parent_inode_id"
  requireId request.newParentInodeId "new_parent_inode_id"
  match ← replayedNamespaceRename request.callerId request.operationId
      .dfsRename digest with
  | some outcome => return outcome
  | none => do
      validateName request.oldName
      validateName request.newName
      let oldParent ←
        directoryForMutation request.namespaceId request.oldParentInodeId
      let newParent ←
        directoryForMutation request.namespaceId request.newParentInodeId
      ensureDirectoryCreateAccess request.caller oldParent
      (if request.oldParentInodeId = request.newParentInodeId then .ok ()
        else ensureDirectoryCreateAccess request.caller newParent : Result Unit)
      let view ← look
      let dentry ← okOr (dentryFromView view
          ⟨request.namespaceId, request.oldParentInodeId, request.oldName⟩)
        (notFound "DFS rename source was not found")
      let source ← inodeFromView view request.namespaceId dentry.inodeId
      ensureStickyParentAllows request.caller oldParent source
      renameFound request digest view oldParent newParent dentry source

end

end Operations

end AgentDx.Dfs
