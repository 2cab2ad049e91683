import AgentDx.Error
import AgentDx.Lib.Bytes
import AgentDx.Lib.Run
import AgentDx.Lib.Word

/-!
# Remote operations of the file owner

The node that holds the write lease of a file serves writes, resizes and syncs of
other nodes.  A handler validates the handle, looks the operation up in the table
of results, applies it to the file, and records its reply in the table.  Every
one of these is a critical section of its own, so that the handlers of several
requests, the local writers of the file and the releases of handles run between
them.
-/

namespace AgentDx.Vfs

open Std Word Bytes Function

def invalid (message : String) : Error := ⟨.nodeVfsInvalid, message⟩

def unavailable (message : String) : Error := ⟨.nodeVfsUnavailable, message⟩

def stale (message : String) : Error := ⟨.nodeDfsStaleHandle, message⟩

/-! ## Requests and replies -/

/-- The handle a remote caller got when it opened the file. -/
structure OwnerHandle where
  namespaceId : String
  inodeId : String
  ownerNodeId : String
  ownerSessionId : String
  leaseEpoch : ℕ
  callerNodeId : String
  callerSessionId : String
  opaqueHandle : List UInt8
  openSeq : ℕ
deriving DecidableEq

structure WriteRequest where
  handle : Option OwnerHandle
  operationId : String
  offset : ℕ
  data : List UInt8
  append : Bool
  killSuidgid : Bool

structure ResizeRequest where
  handle : Option OwnerHandle
  operationId : String
  length : ℕ
  killSuidgid : Bool

structure SyncRequest where
  handle : Option OwnerHandle
  operationId : String
  throughWriteSeq : ℕ
  dataOnly : Bool

inductive Request where
  | write (request : WriteRequest)
  | resize (request : ResizeRequest)
  | sync (request : SyncRequest)

structure WriteReply where
  written : ℕ
  acceptedWriteSeq : ℕ
  effectiveOffset : ℕ
deriving DecidableEq

structure ResizeReply where
  acceptedWriteSeq : ℕ
deriving DecidableEq

structure SyncReply where
  durableWriteSeq : ℕ
  fileVersionId : String
deriving DecidableEq

inductive Reply where
  | write (reply : WriteReply)
  | resize (reply : ResizeReply)
  | sync (reply : SyncReply)
deriving DecidableEq

def Request.handle? : Request → Option OwnerHandle
  | .write request => request.handle
  | .resize request => request.handle
  | .sync request => request.handle

def Request.operationId : Request → String
  | .write request => request.operationId
  | .resize request => request.operationId
  | .sync request => request.operationId

def Request.missingHandle : Request → Error
  | .write _ => stale "DFS owner write missing handle"
  | .resize _ => stale "DFS owner resize missing handle"
  | .sync _ => stale "DFS owner sync missing handle"

/-- The reply is of the kind the request asks for. -/
def Request.expects : Request → Reply → Bool
  | .write _, .write _ => true
  | .resize _, .resize _ => true
  | .sync _, .sync _ => true
  | _, _ => false

/-! ## The table of results -/

structure OperationKey where
  peer : String
  callerSessionId : String
  operationId : String
deriving DecidableEq, Hashable

instance : EquivBEq OperationKey := inferInstance

instance : LawfulHashable OperationKey := inferInstance

/-- A recorded result; the kind of its reply is the kind of the operation. -/
structure OperationResult (Digest : Type) where
  fingerprint : Digest
  reply : Reply

def maxRemoteOperationResults : ℕ := 4096

def remoteOperationKey (peer : String) (handle : OwnerHandle)
    (operationId : String) : OperationKey :=
  ⟨peer, handle.callerSessionId, operationId⟩

def reusedOperation : Error :=
  invalid "DFS remote operation id was reused with a different request body"

def fullOperations : Error := unavailable "DFS remote operation table is full; retry later"

section Table

variable {Digest : Type} [DecidableEq Digest]

abbrev OperationTable (Digest : Type) := ExtHashMap OperationKey (OperationResult Digest)

def remoteOperationCached (results : OperationTable Digest) (key : OperationKey)
    (fingerprint : Digest) : Result (Option (OperationResult Digest)) :=
  match results[key]? with
  | none => .ok none
  | some result =>
    if result.fingerprint ≠ fingerprint then .error reusedOperation
    else .ok (some result)

def rememberRemoteOperation (results : OperationTable Digest)
    (key : OperationKey) (result : OperationResult Digest) : Result (OperationTable Digest) :=
  if maxRemoteOperationResults ≤ results.size ∧ ¬results.contains key then
    .error fullOperations
  else
    .ok (results.insert key result)

end Table

/-! ## Fingerprints -/

section

variable (handle : OwnerHandle)

def word (value : ℕ) : List UInt8 := bigEndian 8 value

def flag (value : Bool) : UInt8 := if value then 1 else 0

def text (value : String) : List UInt8 := value.toUTF8.toList

def fingerprintHandle : List UInt8 :=
  [text handle.namespaceId, text handle.inodeId, text handle.ownerNodeId,
    text handle.ownerSessionId, text handle.callerNodeId,
    text handle.callerSessionId, handle.opaqueHandle].flatMap
      (fun part => word part.length ++ part) ++ word handle.leaseEpoch

def fingerprintRemoteWrite (request : WriteRequest) : List UInt8 :=
  fingerprintHandle handle ++ text "write" ++ word request.offset ++
    [flag request.append] ++ [flag request.killSuidgid] ++ word request.data.length ++ request.data

def fingerprintRemoteResize (request : ResizeRequest) : List UInt8 :=
  fingerprintHandle handle ++ text "resize" ++ word request.length ++ [flag request.killSuidgid]

def fingerprintRemoteSync (request : SyncRequest) : List UInt8 :=
  fingerprintHandle handle ++ text "sync" ++ word request.throughWriteSeq ++ [flag request.dataOnly]

/-- What is hashed of a request. -/
def Request.fingerprint (request : Request) (handle : OwnerHandle) : List UInt8 :=
  match request with
  | .write request => fingerprintRemoteWrite handle request
  | .resize request => fingerprintRemoteResize handle request
  | .sync request => fingerprintRemoteSync handle request

end

/-! ## Files and open handles -/

structure WriteLease where
  leaseEpoch : ℕ
  ownerNodeId : String
  ownerSessionId : String

/-- The write state of a file: the bytes its readers see and the numbers of its
writes. -/
structure FileState where
  content : List UInt8
  nextWriteSeq : ℕ
  visibleWriteSeq : ℕ
  mode : UInt32
  baseVersion : Option String
  writeLease : WriteLease

def clearKernelWritePrivileges (mode : UInt32) : UInt32 :=
  let cleared := mode &&& ~~~0o4000
  if mode &&& 0o010 ≠ 0 then cleared &&& ~~~0o2000 else cleared

/-- The bytes after a write at a position, zero where nothing was written. -/
def overwrite (content : List UInt8) (position : ℕ) (chunk : List UInt8) : List UInt8 :=
  (content ++ List.replicate (position - content.length) 0).take position ++
    chunk ++ content.drop (position + chunk.length)

def FileState.killPrivileges (file : FileState) (killSuidgid : Bool) : FileState :=
  if killSuidgid then { file with mode := clearKernelWritePrivileges file.mode }
  else file

/-- One accepted chunk of a write. -/
def FileState.accept (file : FileState) (position : ℕ) (chunk : List UInt8)
    (killSuidgid : Bool) : FileState :=
  let seq := saturatingAdd file.nextWriteSeq 1
  FileState.killPrivileges { file with
    content := overwrite file.content position chunk
    nextWriteSeq := seq
    visibleWriteSeq := seq } killSuidgid

def FileState.resize (file : FileState) (length : ℕ) (killSuidgid : Bool) : FileState :=
  let seq := saturatingAdd file.nextWriteSeq 1
  FileState.killPrivileges { file with
    content := (file.content ++ List.replicate (length - file.content.length) 0).take length
    nextWriteSeq := seq
    visibleWriteSeq := seq } killSuidgid

structure HandleScope where
  callerNodeId : String
  callerSessionId : String
  leaseEpoch : ℕ
  openSeq : ℕ

structure WriteSession where
  lastAcceptedSeq : ℕ
  lastSyncedSeq : ℕ

structure OpenHandle where
  inodeId : String
  append : Bool
  ownerScope : Option HandleScope
  writeSession : Option WriteSession

def OpenHandle.accepted (handle : OpenHandle) (seq : ℕ) : OpenHandle :=
  { handle with
    writeSession := handle.writeSession.map ({ · with lastAcceptedSeq := seq }) }

/-- The node that owns the files. -/
structure Owner where
  namespaceId : String
  nodeId : String
  sessionId : String

/-! ## Requests in progress -/

/-- Where a handler is. -/
inductive Stage where
  | entered
  | validated (file : ℕ)
  | missed (file : ℕ)
  | writing (file offset : ℕ) (append : Bool) (accepted : ℕ) (seq : Option ℕ)
  | written (file offset total : ℕ)
  | resized (file seq : ℕ)
  | synced (file : ℕ)
  | answering (reply : Reply)

/-- The operation is being applied or its reply is being put together. -/
def Stage.working : Stage → Bool
  | .missed _ | .writing .. | .written .. | .resized .. | .synced _ => true
  | _ => false

structure InFlight where
  peer : String
  request : Request
  stage : Stage

def InFlight.key? (current : InFlight) : Option OperationKey :=
  current.request.handle?.map fun handle =>
    remoteOperationKey current.peer handle current.request.operationId

def InFlight.enter (current : InFlight) (stage : Stage) : InFlight :=
  { current with stage := stage }

structure System (Digest : Type) where
  files : String → Option FileState
  handles : ℕ → Option OpenHandle
  results : OperationTable Digest
  inFlight : ℕ → Option InFlight
  nextRequest : ℕ

def System.start (Digest : Type) (files : String → Option FileState)
    (handles : ℕ → Option OpenHandle) : System Digest :=
  ⟨files, handles, ∅, fun _ => none, 0⟩

/-! ## Validation of handles -/

section Validation

variable {Digest : Type} (owner : Owner) (system : System Digest)

section

variable (current : Result (Option String)) (peer : String) (handle : OwnerHandle)

def fileHandleFromOwner : Result ℕ :=
  if handle.opaqueHandle.length = 8 then
    .ok (fromBigEndian handle.opaqueHandle)
  else
    .error (stale "DFS owner handle is malformed")

def validateOwnerHandleBasic : Result ℕ := do
  ensure (handle.namespaceId = owner.namespaceId ∧ handle.ownerNodeId = owner.nodeId ∧
      handle.ownerSessionId = owner.sessionId ∧ handle.callerNodeId = peer ∧
      handle.leaseEpoch ≠ 0 ∧ handle.openSeq ≠ 0)
    (stale "DFS owner handle identity does not match this owner")
  fileHandleFromOwner handle

def System.handleSnapshot (file : ℕ) : Result OpenHandle :=
  okOr (system.handles file) (stale "DFS file handle is no longer open")

def validateOwnerHandleScope
    (snapshot : OpenHandle) : Result Unit := do
  ensure (snapshot.inodeId = handle.inodeId) (stale "DFS owner handle names another inode")
  let scope ← okOr snapshot.ownerScope (stale "DFS owner handle is not a remote caller handle")
  ensure (scope.callerNodeId = peer ∧ scope.callerSessionId = handle.callerSessionId ∧
      scope.leaseEpoch = handle.leaseEpoch ∧ scope.openSeq = handle.openSeq)
    (stale "DFS owner handle caller scope does not match")

/-- `current` is what Meta answers when asked for the current session of the
peer. -/
def System.validateOwnerHandle : Result ℕ := do
  let file ← validateOwnerHandleBasic owner peer handle
  let snapshot ← system.handleSnapshot file
  validateOwnerHandleScope peer handle snapshot
  let session ← current
  ensure (session = some handle.callerSessionId) (stale "DFS owner caller session is stale")
  let state ← okOr (system.files handle.inodeId) (stale "DFS owner write state is not open")
  ensure (state.writeLease.leaseEpoch = handle.leaseEpoch ∧
      state.writeLease.ownerNodeId = owner.nodeId ∧
      state.writeLease.ownerSessionId = owner.sessionId)
    (stale "DFS owner lease epoch is stale")
  return file

/-- The first part of every handler. -/
def System.validateRequest
    (request : Request) : Result ℕ := do
  let handle ← okOr request.handle? request.missingHandle
  system.validateOwnerHandle owner current peer handle

end

end Validation

/-! ## Steps -/

/-- What is seen of the handlers. -/
inductive Event where
  | arrived (id : ℕ) (peer : String) (request : Request)
  | missed (id : ℕ) (key : OperationKey)
  | applied (id : ℕ) (key : OperationKey)
  | replied (id : ℕ) (key : OperationKey) (reply : Reply)
  | refused (id : ℕ) (error : Error)
  | failed (id : ℕ) (error : Error)

section Steps

variable {Digest : Type} [DecidableEq Digest]

/-- A request goes on to another stage. -/
def System.advance (system : System Digest) (id : ℕ) (current : InFlight)
    (stage : Stage) : System Digest :=
  { system with
    inFlight := update system.inFlight id (some (current.enter stage)) }

/-- A request is answered. -/
def System.finish (system : System Digest) (id : ℕ) : System Digest :=
  { system with inFlight := update system.inFlight id none }

/-- Where the next chunk of a write goes. -/
def FileState.position (file : FileState) (offset accepted : ℕ) (append : Bool) : Option ℕ :=
  if append then some file.content.length else checkedAdd offset accepted

def OpenHandle.acceptedSeq (handle : OpenHandle) : ℕ :=
  (handle.writeSession.map (·.lastAcceptedSeq)).getD 0

def OpenHandle.syncedSeq (handle : OpenHandle) : ℕ :=
  (handle.writeSession.map (·.lastSyncedSeq)).getD 0

/-- One critical section of a handler, or something else that happens at the
owner.  A write accepts its data chunk by chunk; how much it takes at a time and
where it stops depends on budgets and allocations and is left open, and so is
when an operation fails. -/
inductive Step (blake3 : List UInt8 → Digest) (owner : Owner) :
    System Digest → Option Event → System Digest → Prop where
  | arrive {system} (peer request) : Step blake3 owner system
        (some (.arrived system.nextRequest peer request))
        { system with
          inFlight := update system.inFlight system.nextRequest (some ⟨peer, request, .entered⟩)
          nextRequest := system.nextRequest + 1 }
  | validate {system : System Digest} {id current file} (session)
      (hcurrent : system.inFlight id = some current) (hstage : current.stage = .entered)
      (hvalid : system.validateRequest owner session current.peer current.request = .ok file) :
      Step blake3 owner system none (system.advance id current (.validated file))
  | reject {system : System Digest} {id current error} (session)
      (hcurrent : system.inFlight id = some current) (hstage : current.stage = .entered)
      (hvalid : system.validateRequest owner session current.peer current.request = .error error) :
      Step blake3 owner system (some (.failed id error)) (system.finish id)
  | hit {system : System Digest} {id current file handle key result}
      (hcurrent : system.inFlight id = some current) (hstage : current.stage = .validated file)
      (hhandle : current.request.handle? = some handle) (hkey : current.key? = some key)
      (hcached : remoteOperationCached system.results key
        (blake3 (current.request.fingerprint handle)) = .ok (some result))
      (hexpects : current.request.expects result.reply = true) :
      Step blake3 owner system (some (.replied id key result.reply)) (system.finish id)
  | refuse {system : System Digest} {id current file handle key error}
      (hcurrent : system.inFlight id = some current) (hstage : current.stage = .validated file)
      (hhandle : current.request.handle? = some handle) (hkey : current.key? = some key)
      (hcached : remoteOperationCached system.results key
        (blake3 (current.request.fingerprint handle)) = .error error) :
      Step blake3 owner system (some (.refused id error)) (system.finish id)
  | miss {system : System Digest} {id current file handle key cached}
      (hcurrent : system.inFlight id = some current) (hstage : current.stage = .validated file)
      (hhandle : current.request.handle? = some handle) (hkey : current.key? = some key)
      (hcached : remoteOperationCached system.results key
        (blake3 (current.request.fingerprint handle)) = .ok cached)
      (hother : ∀ result, cached = some result → current.request.expects result.reply = false) :
      Step blake3 owner system (some (.missed id key)) (system.advance id current (.missed file))
  | measure {system : System Digest} {id current file offset request snapshot}
      (hcurrent : system.inFlight id = some current) (hstage : current.stage = .missed file)
      (hrequest : current.request = .write request)
      (hsnapshot : system.handleSnapshot file = .ok snapshot)
      (hoffset : request.append = false → offset = request.offset)
      (hsize : request.append = true → ∀ state,
        system.files snapshot.inodeId = some state → offset = state.content.length) :
      Step blake3 owner system none (system.advance id current
        (.writing file offset snapshot.append 0 none))
  | accept {system : System Digest}
      {id current file offset accepted position append seq request handle key state chunk rest}
      (hcurrent : system.inFlight id = some current)
      (hstage : current.stage = .writing file offset append accepted seq)
      (hrequest : current.request = .write request) (hhandle : request.handle = some handle)
      (hkey : current.key? = some key) (hstate : system.files handle.inodeId = some state)
      (hchunk : request.data.drop accepted = chunk ++ rest) (hsome : chunk ≠ [])
      (hposition : state.position offset accepted append = some position)
      (hend : position + chunk.length < Word.size) :
      Step blake3 owner system (some (.applied id key))
        { system.advance id current
            (.writing file offset append (accepted + chunk.length)
              (some (saturatingAdd state.nextWriteSeq 1))) with
          files := update system.files handle.inodeId
            (some (state.accept position chunk request.killSuidgid)) }
  | progress {system : System Digest} {id current file offset accepted seq append opened}
      (hcurrent : system.inFlight id = some current)
      (hstage : current.stage = .writing file offset append accepted (some seq))
      (hopened : system.handles file = some opened) : Step blake3 owner system none
        { system.advance id current
            (.writing file offset append accepted none) with
          handles := update system.handles file (some (opened.accepted seq)) }
  | stop {system : System Digest} {id current file offset accepted append}
      (hcurrent : system.inFlight id = some current)
      (hstage : current.stage = .writing file offset append accepted none) :
      Step blake3 owner system none (system.advance id current (.written file offset accepted))
  | answerWrite {system : System Digest} {id current file offset total snapshot}
      (hcurrent : system.inFlight id = some current)
      (hstage : current.stage = .written file offset total)
      (hsnapshot : system.handleSnapshot file = .ok snapshot) :
      Step blake3 owner system none (system.advance id current
        (.answering (.write ⟨total, snapshot.acceptedSeq, offset⟩)))
  | resize {system : System Digest} {id current file request key snapshot state}
      (hcurrent : system.inFlight id = some current) (hstage : current.stage = .missed file)
      (hrequest : current.request = .resize request) (hkey : current.key? = some key)
      (hsnapshot : system.handleSnapshot file = .ok snapshot)
      (hstate : system.files snapshot.inodeId = some state) :
      Step blake3 owner system (some (.applied id key))
        { system.advance id current
            (.resized file (saturatingAdd state.nextWriteSeq 1)) with
          files := update system.files snapshot.inodeId
            (some (state.resize request.length request.killSuidgid)) }
  | answerResize {system : System Digest} {id current file seq opened}
      (hcurrent : system.inFlight id = some current) (hstage : current.stage = .resized file seq)
      (hopened : system.handles file = some opened) : Step blake3 owner system none
        { system.advance id current (.answering (.resize ⟨seq⟩)) with
          handles := update system.handles file (some (opened.accepted seq)) }
  | sync {system : System Digest} {id current file request key}
      (hcurrent : system.inFlight id = some current) (hstage : current.stage = .missed file)
      (hrequest : current.request = .sync request) (hkey : current.key? = some key) :
      Step blake3 owner system (some (.applied id key)) (system.advance id current (.synced file))
  | answerSync {system : System Digest} {id current file snapshot}
      (hcurrent : system.inFlight id = some current) (hstage : current.stage = .synced file)
      (hsnapshot : system.handleSnapshot file = .ok snapshot) :
      Step blake3 owner system none (system.advance id current
        (.answering (.sync ⟨snapshot.syncedSeq,
          ((system.files snapshot.inodeId).bind (·.baseVersion)).getD ""⟩)))
  | record {system : System Digest} {id current handle key reply results}
      (hcurrent : system.inFlight id = some current) (hstage : current.stage = .answering reply)
      (hhandle : current.request.handle? = some handle) (hkey : current.key? = some key)
      (hremember : rememberRemoteOperation system.results key
        ⟨blake3 (current.request.fingerprint handle), reply⟩ = .ok results) :
      Step blake3 owner system (some (.replied id key reply))
        { system.finish id with results := results }
  | full {system : System Digest} {id current handle key reply error}
      (hcurrent : system.inFlight id = some current) (hstage : current.stage = .answering reply)
      (hhandle : current.request.handle? = some handle) (hkey : current.key? = some key)
      (hremember : rememberRemoteOperation system.results key
        ⟨blake3 (current.request.fingerprint handle), reply⟩ = .error error) :
      Step blake3 owner system (some (.refused id error)) (system.finish id)
  | fail {system : System Digest} {id current} (error)
      (hcurrent : system.inFlight id = some current) (hstage : current.stage.working = true) :
      Step blake3 owner system (some (.failed id error)) (system.finish id)
  | other {system} (files handles) : Step blake3 owner system none
        { system with files := files, handles := handles }

end Steps

end AgentDx.Vfs
