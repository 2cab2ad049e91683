import AgentDx.Dfs.Chunk
import AgentDx.Dfs.Lease

/-!
# Namespace operations

A directory tree is a set of entries, each naming an inode under a parent
inode.  Every operation reads the records it touches at its own pace and commits
under the condition that each of them is still what was read; links into a
directory are counted in the record of the directory itself, so operations on
one directory exclude each other.
-/

namespace AgentDx.Dfs

open Store Client Std Word

/-! ## Requests -/

structure CallerContext where
  uid : ℕ
  gid : ℕ
  supplementaryGids : List ℕ

structure CreateFileRequest where
  callerId : String
  ownerSessionId : String
  operationId : OperationId
  namespaceId : NamespaceId
  parentInodeId : InodeId
  name : Bytes
  attributes : InodeAttributes
  leaseSeconds : ℕ

structure MkdirRequest where
  callerId : String
  operationId : OperationId
  namespaceId : NamespaceId
  parentInodeId : InodeId
  name : Bytes
  attributes : InodeAttributes
  caller : CallerContext

structure MknodRequest where
  callerId : String
  operationId : OperationId
  namespaceId : NamespaceId
  parentInodeId : InodeId
  name : Bytes
  kind : SpecialNodeKind
  attributes : InodeAttributes
  caller : CallerContext

structure SymlinkRequest where
  callerId : String
  operationId : OperationId
  namespaceId : NamespaceId
  parentInodeId : InodeId
  name : Bytes
  target : Bytes
  attributes : InodeAttributes
  caller : CallerContext

structure LinkRequest where
  callerId : String
  operationId : OperationId
  namespaceId : NamespaceId
  existingInodeId : InodeId
  expectedInodeRevision : ℕ
  parentInodeId : InodeId
  name : Bytes
  caller : CallerContext

/-- A removal; `rmdir` builds the same request as `unlink`. -/
structure UnlinkRequest where
  callerId : String
  operationId : OperationId
  namespaceId : NamespaceId
  parentInodeId : InodeId
  name : Bytes
  caller : CallerContext

inductive RenameMode where
  | noReplace
  | replace
  deriving DecidableEq

structure RenameRequest where
  callerId : String
  operationId : OperationId
  namespaceId : NamespaceId
  oldParentInodeId : InodeId
  oldName : Bytes
  newParentInodeId : InodeId
  newName : Bytes
  mode : RenameMode
  caller : CallerContext

inductive NamespaceRequest where
  | create (request : CreateFileRequest)
  | mkdir (request : MkdirRequest)
  | mknod (request : MknodRequest)
  | symlink (request : SymlinkRequest)
  | link (request : LinkRequest)
  | unlink (request : UnlinkRequest)
  | rename (request : RenameRequest)

/-- The canonical encoding of requests, which may refuse one. -/
class RequestCodec where
  encode : NamespaceRequest → Option Bytes

/-- An encoding for concrete runs. -/
abbrev plainRequests : RequestCodec := ⟨fun _ => some []⟩

/-! ## Names, permissions and identities -/

section

variable (caller : CallerContext) (inode : InodeRecord)

def validateName (name : Bytes) : Result Unit := do
  ensure (decide (name.length ≤ 255))
    (nameTooLong "DFS name exceeds the supported component length")
  ensure (!name.isEmpty && decide (name ≠ utf8 ".") && decide (name ≠ utf8 "..") &&
      decide ((47 : UInt8) ∉ name))
    (invalid "DFS name must be one non-empty path component")

def validateSymlinkTarget (target : Bytes) : Result Unit := do
  ensure (!target.isEmpty) (invalid "DFS symlink target must not be empty")
  ensure (decide (target.length ≤ 4096)) (nameTooLong "DFS symlink target exceeds supported length")

def CallerContext.inGroup (gid : ℕ) : Bool :=
  decide (caller.gid = gid) || decide (gid ∈ caller.supplementaryGids)

def setGidBit : Bool :=
  decide (inode.attributes.mode &&& 0o2000 ≠ 0)

def inheritedChildGid (parent : InodeRecord) : ℕ :=
  if setGidBit parent then parent.attributes.gid else caller.gid

def ensureDirectoryCreateAccess : Result Unit :=
  let shift := if caller.uid = inode.attributes.uid then 6
    else if caller.inGroup inode.attributes.gid then 3 else 0
  ensure (decide (caller.uid = 0) || decide ((inode.attributes.mode >>> shift) &&& 0o3 = 0o3))
    (permissionDenied "DFS namespace mutation requires parent write and search permission")

def ensureStickyParentAllows (parent victim : InodeRecord) : Result Unit :=
  ensure (decide (parent.attributes.mode &&& 0o1000 = 0) ||
      decide (caller.uid = 0) || decide (caller.uid = parent.attributes.uid) ||
      decide (caller.uid = victim.attributes.uid))
    (permissionDenied
      ("DFS sticky directory mutation requires directory owner, victim owner, " ++
        "or privileged caller context"))

/-- The eight big-endian bytes of a length. -/
def beBytes (value : ℕ) : Bytes :=
  (List.range 8).map fun index => UInt8.ofNat (value >>> (8 * (7 - index)))

end

section Identities

variable [Hash]

def namespaceInodeId (callerId : String) (operationId : OperationId) : InodeId :=
  "inode:" ++ String.ofList (hexDigits (Hash.blake3
    (beBytes callerId.utf8ByteSize ++ utf8 callerId ++ utf8 operationId)))

def namespaceRequestDigest [RequestCodec] (request : NamespaceRequest) : Result Digest := do
  let bytes ← okOr (RequestCodec.encode request) (invalid "DFS namespace request cannot be encoded")
  return Hash.blake3 bytes

end Identities

/-! ## Replies bound to the request -/

section

variable (callerId : String) (operationId : OperationId) (operation : StoreOperation)
  (digest : Digest)

def namespaceResultInner (result : OperationResult) (expected : Digest) : Result OperationResult :=
  match result with
  | .dfsNamespace requestDigest inner =>
    if requestDigest = expected then .ok inner
    else .error (invalid ("DFS namespace retry differs from the recorded " ++
      "request or lacks its identity proof"))
  | _ => .error (invalid ("DFS namespace retry differs from the recorded " ++
      "request or lacks its identity proof"))

def validateNamespaceOutcome (outcome : TxnOutcome) (expected : Digest) : Result TxnOutcome :=
  match outcome with
  | .committed revision stored => do
      let inner ← namespaceResultInner stored.result expected
      return .committed revision { stored with result := inner }
  | .conditionFailed revision (some stored) => do
      let inner ← namespaceResultInner stored.result expected
      return .conditionFailed revision (some { stored with result := inner })
  | .conditionFailed revision none => .ok (.conditionFailed revision none)

def replayedNamespaceResult : Service (Option OperationResult) := do
  match ← replayedResult callerId operationId operation with
  | none => return none
  | some result => do
      let inner ← namespaceResultInner result digest
      return some inner

def replayedNamespaceInode : Service (Option InodeRecord) := do
  match ← replayedNamespaceResult callerId operationId operation digest with
  | none => return none
  | some (.dfsInode inode) => return some inode
  | some _ => fail (invalid "DFS namespace replay returned the wrong result")

def replayedNamespaceInodeAndLease : Service (Option (InodeRecord × WriteLease)) := do
  match ← replayedNamespaceResult callerId operationId operation digest with
  | none => return none
  | some (.dfsInodeWithLease inode lease) => return some (inode, lease)
  | some _ => fail (invalid "DFS namespace replay returned the wrong result")

def replayedNamespaceRename : Service (Option RenameOutcome) := do
  match ← replayedNamespaceResult callerId operationId operation digest with
  | none => return none
  | some (.dfsRename value) => return some value
  | some _ => fail (invalid "DFS namespace replay returned the wrong result")

end

/-! ## Reading one state -/

section

variable (view : State) (namespaceId : NamespaceId) (inodeId : InodeId)

def inodeFromView : Result InodeRecord :=
  match view.entity? (.dfsInode inodeId) with
  | some (.dfsInode inode) =>
    if inode.namespaceId = namespaceId then .ok inode
    else .error ⟨.nodeVfsNotFound, "DFS inode was not found"⟩
  | none =>
    if inodeId = "1" then .ok (rootInode namespaceId)
    else .error ⟨.nodeVfsNotFound, "DFS inode was not found"⟩
  | some _ => .error ⟨.nodeVfsNotFound, "DFS inode was not found"⟩

def dentryFromView (key : DentryKey) : Option Dentry :=
  match view.entity? (.dfsDentry key) with
  | some (.dfsDentry dentry) => some dentry
  | _ => none

def directoryEntriesFromView (parentInodeId : InodeId) : List Dentry :=
  (view.entities.toList.filterMap fun entry =>
    match entry.1, entry.2.entity with
    | .dfsDentry key, .dfsDentry dentry =>
      if key.namespaceId = namespaceId ∧ key.parentInodeId = parentInodeId ∧
          dentry.key.namespaceId = namespaceId ∧ dentry.key.parentInodeId = parentInodeId then
        some dentry
      else
        none
    | _, _ => none).mergeSort fun left right =>
      (compare left.key.name right.key.name).isLE

/-- Depth-first search for the directory that holds an inode.  Every visit adds
a directory to `visited`, so the number of entities bounds the depth. -/
def parentInodeFromSubtree (view : State) (namespaceId : NamespaceId)
    (inodeId : InodeId) : ℕ → InodeId → List InodeId → Option InodeId × List InodeId
  | 0, _, visited => (none, visited)
  | fuel + 1, directory, visited =>
    if directory ∈ visited then
      (none, visited)
    else
      (directoryEntriesFromView view namespaceId directory).foldl
        (fun found dentry =>
          match found.1 with
          | some _ => found
          | none =>
            if dentry.inodeId = inodeId then
              (some directory, found.2)
            else
              match inodeFromView view namespaceId dentry.inodeId with
              | .error _ => found
              | .ok inode =>
                if inode.kind = .directory then
                  parentInodeFromSubtree view namespaceId inodeId fuel inode.inodeId found.2
                else
                  found)
        (none, directory :: visited)

def parentInodeFromView : Option InodeId :=
  if inodeId = "1" then
    none
  else
    (directoryEntriesFromView view namespaceId "1").findSome? fun dentry =>
      if dentry.inodeId = inodeId then
        some "1"
      else
        match inodeFromView view namespaceId dentry.inodeId with
        | .error _ => none
        | .ok inode =>
          if inode.kind = .directory then
            (parentInodeFromSubtree view namespaceId inodeId
              (view.entities.size + 1) inode.inodeId []).1
          else
            none

/-- The upward walk of the early descendant test; an inode that repeats counts
as a descendant. -/
def descendantWalk (view : State) (namespaceId : NamespaceId)
    (ancestor : InodeId) : ℕ → InodeId → List InodeId → Bool
  | 0, _, _ => true
  | fuel + 1, current, visited =>
    if current ∈ visited then
      true
    else
      match parentInodeFromView view namespaceId current with
      | none => false
      | some parent =>
        if parent = ancestor then
          true
        else if parent = "1" then
          false
        else
          descendantWalk view namespaceId ancestor fuel parent (current :: visited)

def directoryIsDescendantOrSame (ancestor child : InodeId) : Bool :=
  decide (ancestor = child) ||
    descendantWalk view namespaceId ancestor (view.entities.size + 2) child []

end

end AgentDx.Dfs
