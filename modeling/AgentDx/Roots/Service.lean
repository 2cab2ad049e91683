import AgentDx.Lib.Bytes
import AgentDx.Dfs.Chunk
import AgentDx.Dfs.Service

/-!
# The authority over owner roots

A root is reserved under a fresh epoch, activated by its home, which consumes
the reservation, recovered by later sessions of that home, and deactivated.
Every operation reads the store at several points and then offers one
transaction; a reservation whose epoch was taken by another root starts over.
-/

namespace AgentDx.Roots

open Store Client Std Word Bytes
open Dfs hiding permissionDenied

/-! ## Errors -/

def rootExists (message : String) : Error := ⟨.metaOwnerRootExists, message⟩
def rootBusy (message : String) : Error := ⟨.metaOwnerRootBusy, message⟩
def homeUnavailable (message : String) : Error := ⟨.metaOwnerHomeUnavailable, message⟩
def permissionDenied (message : String) : Error := ⟨.clientPermissionDenied, message⟩

/-! ## Inputs -/

structure ReserveRootInput where
  requestId : String
  rootId : String
  /-- The entry node; the authority selects the actual home. -/
  preferredHomeNodeId : String
  sessionId : String
  /-- Zero selects automatic allocation. -/
  expectedRootEpoch : ℕ
  createIntentId : String
  deriving DecidableEq

structure ReserveRootOutput where
  reservation : RootReservationRecord
  alreadyReservedBySameIntent : Bool
  deriving DecidableEq

structure WireRootReservation where
  rootId : String
  rootEpoch : ℕ
  homeNodeId : String
  sessionId : String
  createIntentId : String
  prepareToken : String
  requesterNodeId : String
  requesterSessionId : String
  deriving DecidableEq

structure ActivateRootInput where
  requestId : String
  reservation : WireRootReservation
  localPrepareId : String
  deriving DecidableEq

structure AbortRootInput where
  requestId : String
  rootId : String
  rootEpoch : ℕ
  sessionId : String
  createIntentId : String
  prepareToken : String
  authenticatedHomeNodeId : Option String
  deriving DecidableEq

structure DeactivateRootInput where
  requestId : String
  rootId : String
  rootEpoch : ℕ
  homeNodeId : String
  homeSessionId : String
  authenticatedHomeNodeId : Option String
  deriving DecidableEq

structure AcquireRootInput where
  requestId : String
  rootId : String
  requesterNodeId : String
  sessionId : String
  rights : List RootRight
  expectedRootEpoch : ℕ
  expectedAccessGeneration : ℕ
  deriving DecidableEq

structure RecoverRootInput where
  requestId : String
  rootId : String
  expectedRootEpoch : ℕ
  homeNodeId : String
  homeSessionId : String
  localPrepareId : String
  deriving DecidableEq

/-- A request of one session of a node. -/
def sessionRequest (nodeId sessionId requestId : String) : RequestKey :=
  ⟨nodeId ++ "/" ++ sessionId, requestId⟩

def ReserveRootInput.key (input : ReserveRootInput) : RequestKey :=
  sessionRequest input.preferredHomeNodeId input.sessionId input.requestId

/-! ## Records -/

def reservationRecord (input : ReserveRootInput) (home : NodeSession)
    (rootEpoch : ℕ) : RootReservationRecord where
  rootId := input.rootId
  rootEpoch := rootEpoch
  homeNodeId := home.nodeId
  homeSessionId := home.sessionId
  createIntentId := input.createIntentId
  prepareToken := "prepare:" ++ input.rootId ++ ":" ++ input.sessionId ++ ":" ++
    input.createIntentId ++ ":" ++ input.requestId
  requesterNodeId := input.preferredHomeNodeId
  requesterSessionId := input.sessionId
  createdAtRevision := 0

def fencingToken (rootId sessionId : String) (generation : ℕ) : String :=
  "fence:" ++ rootId ++ ":" ++ sessionId ++ ":" ++ toString generation

/-- The grant of the home itself. -/
def homeGrant (root : RootRecord) (accessGeneration : ℕ) : RootAccessGrant where
  rootId := root.rootId
  rootEpoch := root.rootEpoch
  homeNodeId := root.homeNodeId
  homeSessionId := root.homeSessionId
  holderNodeId := root.homeNodeId
  holderSessionId := root.homeSessionId
  accessGeneration := accessGeneration
  rights := [.lookup, .read, .write, .admin]
  fencingToken := fencingToken root.rootId root.homeSessionId accessGeneration
  issuedAtRevision := 0

/-- Every right in either list, once, in a fixed order. -/
def mergeRights (existing requested : List RootRight) : List RootRight :=
  [.lookup, .read, .write, .admin].filter fun right => decide (right ∈ existing ++ requested)

/-! ## Sessions and homes -/

/-- The clock is read only for the session asked for. -/
def sessionIsLive (session : NodeSession) (sessionId : String) : Service Bool := do
  if session.sessionId = sessionId then
    let time ← now
    return session.isLiveAtUnixMs time
  else
    return false

def requireCurrentLiveSession (nodeId sessionId : String) : Service NodeSession := do
  match ← read (.currentNodeSession nodeId) with
  | some (.nodeSession session) =>
    let live ← sessionIsLive session sessionId
    ensure live (invalid "node session is not current")
    return session
  | _ => fail (invalid "node session is not current")

def reservationRequesterIsLive (reservation : RootReservationRecord) : Service Bool := do
  match ← read (.currentNodeSession reservation.requesterNodeId) with
  | some (.nodeSession session) =>
    sessionIsLive session reservation.requesterSessionId
  | _ => return false

/-- The current sessions of all nodes, ordered by node and session. -/
def currentSessions (view : State) : List NodeSession :=
  (view.entities.toList.filterMap fun
    | (.currentNodeSession _, ⟨_, .nodeSession session⟩) => some session
    | _ => none).mergeSort fun left right =>
      left.nodeId < right.nodeId ||
        (left.nodeId == right.nodeId && left.sessionId ≤ right.sessionId)

section Home

variable [Hash]

def placementScore (rootId nodeId : String) : Digest :=
  Hash.blake3 (utf8 "afs-ownerfs-placement-v1" ++ bigEndian 8 (utf8 rootId).length ++ utf8 rootId ++
    bigEndian 8 (utf8 nodeId).length ++ utf8 nodeId)

/-- Digests compare as their bytes do, most significant first. -/
def placementIsPreferred (score : Digest) (nodeId : String)
    (selectedScore : Digest) (selectedNodeId : String) : Bool :=
  decide (selectedScore < score) ||
    (decide (score = selectedScore) && decide (nodeId < selectedNodeId))

def preferHome (rootId : String) (selected : Option (Digest × NodeSession))
    (session : NodeSession) : Option (Digest × NodeSession) :=
  let score := placementScore rootId session.nodeId
  match selected with
  | none => some (score, session)
  | some (selectedScore, selectedSession) =>
    if placementIsPreferred score session.nodeId selectedScore
        selectedSession.nodeId then
      some (score, session)
    else
      selected

/-- The clock is read once for every session that serves owner roots. -/
def chooseHome (rootId : String) : List NodeSession →
    Option (Digest × NodeSession) → Service (Option (Digest × NodeSession))
  | [], selected => return selected
  | session :: sessions, selected =>
    if session.ownerfsEnabled then do
      let time ← now
      if session.isLiveAtUnixMs time then
        chooseHome rootId sessions (preferHome rootId selected session)
      else
        chooseHome rootId sessions selected
    else
      chooseHome rootId sessions selected

def selectHome (loadBalancing : Bool)
    (rootId requesterNodeId requesterSessionId : String) : Service NodeSession := do
  if loadBalancing then
    let view ← look
    match ← chooseHome rootId (currentSessions view) none with
    | some (_, session) => return session
    | none =>
      fail (homeUnavailable "no live node is available for workspace creation")
  else
    requireCurrentLiveSession requesterNodeId requesterSessionId

end Home

/-! ## Outcomes -/

def commitOrReplay (txn : MetaTxn) : Service OperationResult := do
  match ← compareAndCommit txn with
  | .committed _ outcome => return outcome.result
  | .conditionFailed _ (some outcome) =>
    ensure (decide (outcome.operation = txn.operation))
      (invalid "request_id was already used for a different Meta operation")
    return outcome.result
  | .conditionFailed _ none => fail (invalid
      "Meta transaction conditions failed; caller must refresh authority state")

def takeReserveResult (result : OperationResult) (input : ReserveRootInput) :
    Result RootReservationRecord :=
  match result with
  | .rootReservation reservation => do
      ensure (decide (reservation.rootId = input.rootId) && decide (reservation.rootEpoch ≠ 0) &&
          decide (input.expectedRootEpoch ≤ reservation.rootEpoch) &&
          decide (reservation.createIntentId = input.createIntentId) &&
          decide (reservation.requesterNodeId = input.preferredHomeNodeId) &&
          decide (reservation.requesterSessionId = input.sessionId))
        (invalid "reserve replay parameters do not match")
      return reservation
  | _ => .error (invalid "reserve replay returned wrong result type")

/-- Explains a failed reservation from the present state of the root. -/
def classifyReserveOutcome (outcome : TxnOutcome) (rootId : String)
    (previousReservation : Option RootReservationRecord) : Service OperationResult := do
  match outcome with
  | .committed _ outcome => return outcome.result
  | .conditionFailed _ (some outcome) =>
    ensure (decide (outcome.operation = .reserveRoot))
      (invalid "request_id was already used for a different Meta operation")
    return outcome.result
  | .conditionFailed _ none =>
    let view ← look
    match view.entity? (.root rootId), view.entity? (.rootReservation rootId)
      with
    | some (.root _), _ =>
      fail (rootExists "root was activated while reserving")
    | _, some (.rootReservation reservation) =>
      ensure (decide (some reservation = previousReservation))
        (rootBusy "root is reserved by another request")
      fail (homeUnavailable
        "node authority changed while reserving; caller must refresh authority state")
    | _, _ => fail (homeUnavailable
        "node authority changed while reserving; caller must refresh authority state")

/-! ## Reserving -/

section

variable (input : ReserveRootInput) (rootId : String) (existing : RootReservationRecord)

/-- The same request again: nothing changes but the recorded outcome. -/
def sameIntentTxn : MetaTxn :=
  serviceTxn input.key .reserveRoot
    [.nodeSessionCurrent input.preferredHomeNodeId input.sessionId, .missing (.root input.rootId),
      .entityEquals (.rootReservation existing)]
    [] (.rootReservation existing)

/-- The reservation that is replaced, or its absence. -/
def pinReservation : Option RootReservationRecord → List TxnCondition
  | some existing =>
    [.entityEquals (.rootReservation existing),
      .nodeSessionExpired existing.requesterNodeId existing.requesterSessionId]
  | none => [.missing (.rootReservation rootId)]

/-- Allocates the epoch after `previous` and reserves the root under it. -/
def allocationTxn (home : NodeSession)
    (existing : Option RootReservationRecord) (previous : ℕ) : MetaTxn :=
  let reservation := reservationRecord input home (previous + 1)
  serviceTxn input.key .reserveRoot
    ([.rootEpochWatermarkEquals previous,
      .nodeSessionCurrent input.preferredHomeNodeId input.sessionId, .missing (.root input.rootId),
      .nodeSessionCurrent reservation.homeNodeId reservation.homeSessionId] ++
      pinReservation input.rootId existing)
    [putEntity (.rootEpochWatermark (previous + 1)), putEntity (.rootReservation reservation)]
    (.rootReservation reservation)

def ReserveRootInput.sameIntent : Bool :=
  decide (existing.createIntentId = input.createIntentId) &&
    decide (existing.requesterNodeId = input.preferredHomeNodeId) &&
    decide (existing.requesterSessionId = input.sessionId)

def readReservation : Service (Option RootReservationRecord) := do
  match ← read (.rootReservation rootId) with
  | some (.rootReservation reservation) => return some reservation
  | some _ => fail (invalid "root reservation lookup returned wrong entity")
  | none => return none

def reserveSameIntent : Service ReserveRootOutput := do
  let outcome ← compareAndCommit (sameIntentTxn input existing)
  let result ← classifyReserveOutcome outcome input.rootId (some existing)
  let reservation ← takeReserveResult result input
  return ⟨reservation, true⟩

end

section Reserve

variable [Hash]

/-- Offers the next epoch.  There is no output when the offer failed and
another allocation has moved the floor meanwhile. -/
def allocateRoot (loadBalancing : Bool) (input : ReserveRootInput)
    (existing : Option RootReservationRecord) : Service (Option ReserveRootOutput) := do
  let home ← selectHome loadBalancing input.rootId input.preferredHomeNodeId input.sessionId
  let floor ← look
  let previous := floor.rootEpochWatermark
  let rootEpoch ← okOr (checkedAdd previous 1) (invalid "root epoch exhausted")
  ensure (decide (input.expectedRootEpoch ≤ rootEpoch))
    (invalid "expected root epoch exceeds next allocated epoch")
  let outcome ← compareAndCommit (allocationTxn input home existing previous)
  let moved ← (match outcome with
    | .conditionFailed _ none => do
        let refreshed ← look
        return decide (refreshed.rootEpochWatermark ≠ previous)
    | _ => return false)
  if moved then
    return none
  else
    let result ← classifyReserveOutcome outcome input.rootId existing
    let reservation ← takeReserveResult result input
    return some ⟨reservation, false⟩

/-- One attempt; no output asks for another one. -/
def reserveAttempt (loadBalancing : Bool) (input : ReserveRootInput) :
    Service (Option ReserveRootOutput) := do
  let root ← read (.root input.rootId)
  ensure root.isNone (rootExists "root already exists")
  match ← readReservation input.rootId with
  | some existing =>
    if input.sameIntent existing then
      let output ← reserveSameIntent input existing
      return some output
    else
      let live ← reservationRequesterIsLive existing
      ensure (!live) (rootBusy "root is reserved by another live request")
      allocateRoot loadBalancing input (some existing)
  | none => allocateRoot loadBalancing input none

def reserveAttempts (loadBalancing : Bool) (input : ReserveRootInput) :
    ℕ → Service ReserveRootOutput
  | 0 => fail (homeUnavailable
      "root epoch allocation contention; retry the same request")
  | attempts + 1 => do
      match ← reserveAttempt loadBalancing input with
      | some output => return output
      | none => reserveAttempts loadBalancing input attempts

def reserveRoot (loadBalancing : Bool) (input : ReserveRootInput) : Service ReserveRootOutput := do
  ensure (!input.rootId.isEmpty && !input.preferredHomeNodeId.isEmpty &&
      !input.sessionId.isEmpty && !input.createIntentId.isEmpty)
    (invalid "root and requester identity are required")
  match ← readOutcome input.key with
  | some outcome =>
    let _ ← requireCurrentLiveSession input.preferredHomeNodeId input.sessionId
    ensure (decide (outcome.operation = .reserveRoot))
      (invalid "request_id was already used for a different Meta operation")
    let reservation ← takeReserveResult outcome.result input
    return ⟨reservation, true⟩
  | none => reserveAttempts loadBalancing input 32

end Reserve

/-! ## Activating and aborting -/

section

variable (request : RequestKey) (input : ActivateRootInput) (record : RootReservationRecord)
  (localPrepareId : String)

/-- The root a reservation becomes. -/
def activatedRoot : RootRecord where
  rootId := record.rootId
  rootEpoch := record.rootEpoch
  homeNodeId := record.homeNodeId
  homeSessionId := record.homeSessionId
  localPrepareId := localPrepareId
  createdAtRevision := 0
  updatedAtRevision := 0

def activationTxn : MetaTxn :=
  let root := activatedRoot record localPrepareId
  let grant := homeGrant root 1
  serviceTxn request .activateRoot
    [.nodeSessionCurrent root.homeNodeId root.homeSessionId, .missing (.root root.rootId),
      .entityEquals (.rootReservation record)]
    [putEntity (.root root), putEntity (.rootGrant grant),
      deleteKey (.rootReservation grant.rootId)]
    (.rootGrant grant)

def takeGrant (message : String) : OperationResult → Result RootAccessGrant
  | .rootGrant grant => .ok grant
  | _ => .error (invalid message)

/-- The durable record is the one the caller presents. -/
def WireRootReservation.matchesRecord (wire : WireRootReservation)
    (record : RootReservationRecord) : Bool :=
  decide (record.rootEpoch = wire.rootEpoch) && decide (record.homeNodeId = wire.homeNodeId) &&
    decide (record.homeSessionId = wire.sessionId) &&
    decide (record.createIntentId = wire.createIntentId) &&
    decide (record.prepareToken = wire.prepareToken) &&
    decide (record.requesterNodeId = wire.requesterNodeId) &&
    decide (record.requesterSessionId = wire.requesterSessionId)

/-- Answers a repeated activation from its recorded outcome. -/
def replayActivation (outcome : RequestOutcome) : Service RootAccessGrant := do
  let _ ← requireCurrentLiveSession input.reservation.homeNodeId input.reservation.sessionId
  ensure (decide (outcome.operation = .activateRoot))
    (invalid "request_id was already used for a different Meta operation")
  let grant ← takeGrant "activate replay returned wrong result type" outcome.result
  ensure (decide (grant.rootId = input.reservation.rootId) &&
      decide (grant.rootEpoch = input.reservation.rootEpoch) &&
      decide (grant.homeNodeId = input.reservation.homeNodeId) &&
      decide (grant.homeSessionId = input.reservation.sessionId))
    (invalid "activate replay parameters do not match")
  match ← read (.root input.reservation.rootId) with
  | some (.root root) =>
    ensure (decide (root.localPrepareId = input.localPrepareId))
      (invalid "activate replay parameters do not match")
    return grant
  | _ => fail (invalid "activate replay parameters do not match")

def activateRoot : Service RootAccessGrant := do
  ensure (!input.localPrepareId.isEmpty) (invalid "local_prepare_id is required")
  let key := sessionRequest input.reservation.homeNodeId input.reservation.sessionId input.requestId
  match ← readOutcome key with
  | some outcome => replayActivation input outcome
  | none =>
    match ← read (.rootReservation input.reservation.rootId) with
    | some (.rootReservation record) =>
      ensure (input.reservation.matchesRecord record)
        (invalid "reservation does not match durable reserve record")
      let result ← commitOrReplay (activationTxn key record input.localPrepareId)
      takeGrant "activate replay returned wrong result type" result
    | _ => fail (invalid "root reservation was not found")

def abortTxn (rootId : String) (reservation : RootReservationRecord) : MetaTxn :=
  serviceTxn request .abortRoot
    [.entityEquals (.rootReservation reservation)]
    [deleteKey (.rootReservation rootId)] .empty

/-- The caller, if authenticated, is the home. -/
def authenticatedAs (authenticated : Option String) (homeNodeId subject : String) : Result Unit :=
  match authenticated with
  | some nodeId =>
    ensure (decide (nodeId = homeNodeId)) (permissionDenied
      ("authenticated node " ++ nodeId ++ " does not match " ++ subject ++ " home " ++ homeNodeId))
  | none => .ok ()

def abortRoot (input : AbortRootInput) : Service Unit := do
  match ← read (.rootReservation input.rootId) with
  | some (.rootReservation reservation) =>
    ensure (decide (reservation.homeSessionId = input.sessionId))
      (invalid "abort session does not match durable reservation")
    ensure (decide (reservation.rootEpoch = input.rootEpoch) &&
        decide (reservation.createIntentId = input.createIntentId) &&
        decide (reservation.prepareToken = input.prepareToken))
      (invalid "abort request does not match durable reservation")
    authenticatedAs input.authenticatedHomeNodeId reservation.homeNodeId "reservation"
    let key := sessionRequest reservation.homeNodeId input.sessionId input.requestId
    forget (commitOrReplay (abortTxn key input.rootId reservation))
  | _ => fail (invalid "root reservation was not found")

end

/-! ## Deactivating -/

def deactivationTxn (root : RootRecord) (grant : RootAccessGrant) (requestId : String) : MetaTxn :=
  serviceTxn (sessionRequest root.homeNodeId root.homeSessionId requestId)
    .deactivateRoot
    [.nodeSessionCurrent root.homeNodeId root.homeSessionId,
      .entityEquals (.root root), .entityEquals (.rootGrant grant)]
    [deleteKey (.root root.rootId), putEntity (.rootCommand {
        commandId := "deactivate:" ++ root.rootId ++ ":" ++
          toString root.rootEpoch ++ ":" ++ requestId
        homeNodeId := root.homeNodeId
        homeSessionId := root.homeSessionId
        rootId := root.rootId
        rootEpoch := root.rootEpoch
        oldAccessGeneration := grant.accessGeneration
        commandType := .revokeAccess })]
    .empty

def homeGrantKey (root : RootRecord) : MetaKey :=
  .rootGrant root.rootId root.homeNodeId root.homeSessionId

def deactivateRoot (input : DeactivateRootInput) : Service Unit := do
  match ← read (.root input.rootId) with
  | some (.root root) =>
    ensure (decide (root.rootEpoch = input.rootEpoch))
      (invalid "deactivate root epoch does not match durable root")
    ensure (decide (root.homeNodeId = input.homeNodeId) &&
        decide (root.homeSessionId = input.homeSessionId))
      (invalid "deactivate caller does not match durable root")
    authenticatedAs input.authenticatedHomeNodeId root.homeNodeId "root"
    match ← read (homeGrantKey root) with
    | some (.rootGrant grant) =>
      ensure (decide (grant.rootEpoch = root.rootEpoch) &&
          decide (grant.homeNodeId = root.homeNodeId) &&
          decide (grant.homeSessionId = root.homeSessionId) && decide (grant.accessGeneration ≠ 0))
        (invalid "current Home grant does not match deactivated Root")
      forget (commitOrReplay (deactivationTxn root grant input.requestId))
    | _ => fail (invalid "current Home grant is missing during deactivation")
  | _ => return ()

/-! ## Acquiring and recovering -/

section

variable (key : MetaKey) (requestId : String) (root : RootRecord) (home : RootAccessGrant)
  (input : AcquireRootInput)

/-- The grant an access request receives. -/
def acquiredGrant (existingRights : List RootRight) : RootAccessGrant where
  rootId := root.rootId
  rootEpoch := root.rootEpoch
  homeNodeId := root.homeNodeId
  homeSessionId := root.homeSessionId
  holderNodeId := input.requesterNodeId
  holderSessionId := input.sessionId
  accessGeneration := home.accessGeneration
  rights := mergeRights existingRights input.rights
  fencingToken := fencingToken root.rootId input.sessionId home.accessGeneration
  issuedAtRevision := 0

/-- The revision of the holder's earlier grant, or its absence. -/
def pinGrant : Option ℕ → TxnCondition
  | some revision => .revisionEquals key revision
  | none => .missing key

def acquisitionTxn (grant : RootAccessGrant) (existingRevision : Option ℕ) : MetaTxn :=
  serviceTxn
    (sessionRequest grant.holderNodeId grant.holderSessionId requestId)
    .acquireRoot
    [.nodeSessionCurrent grant.holderNodeId grant.holderSessionId,
      .rootEpochEquals grant.rootId grant.rootEpoch,
      pinGrant (.rootGrant grant.rootId grant.holderNodeId grant.holderSessionId) existingRevision]
    [putEntity (.rootGrant grant)] (.rootGrant grant)

/-- Reads an entity with its revision. -/
def readVersioned : Service (Option VersionedEntity) := do
  let view ← look
  return view.entities[key]?

/-- The holder's earlier grant: its revision, and its rights if it is of the
present generation. -/
def heldGrant : Option VersionedEntity → Result (Option ℕ × List RootRight)
  | some ⟨revision, .rootGrant grant⟩ =>
    if grant.rootEpoch = root.rootEpoch ∧ grant.homeSessionId = root.homeSessionId ∧
        grant.accessGeneration = home.accessGeneration then
      .ok (some revision, grant.rights)
    else
      .ok (some revision, [])
  | none => .ok (none, [])
  | some _ => .error (invalid "holder grant lookup returned wrong entity type")

def acquireRoot : Service RootAccessGrant := do
  match ← read (.root input.rootId) with
  | some (.root root) =>
    ensure (decide (input.expectedRootEpoch = 0) ||
        decide (input.expectedRootEpoch = root.rootEpoch))
      (invalid "root epoch changed")
    match ← read (homeGrantKey root) with
    | some (.rootGrant home) =>
      ensure (decide (input.expectedAccessGeneration = 0) ||
          decide (input.expectedAccessGeneration = home.accessGeneration))
        (invalid "root access generation changed")
      let held ← readVersioned (.rootGrant root.rootId input.requesterNodeId input.sessionId)
      let (existingRevision, existingRights) ← heldGrant root home held
      let result ← commitOrReplay (acquisitionTxn input.requestId
        (acquiredGrant root home input existingRights) existingRevision)
      takeGrant "acquire replay returned wrong result type" result
    | _ => fail (invalid "home grant was not found")
  | _ => fail (invalid "root was not found")

/-- The root moves to a new session of its home. -/
def recoveredRoot (homeSessionId : String) : RootRecord :=
  { root with homeSessionId := homeSessionId }

def nextGeneration : Option MetaEntity → ℕ
  | some (.rootGrant grant) => saturatingAdd grant.accessGeneration 1
  | _ => 1

def recoveryTxn (generation : ℕ) : MetaTxn :=
  let grant := homeGrant root generation
  serviceTxn (sessionRequest root.homeNodeId root.homeSessionId requestId)
    .recoverRoot
    [.nodeSessionCurrent root.homeNodeId root.homeSessionId,
      .rootEpochEquals root.rootId root.rootEpoch]
    [putEntity (.root root), putEntity (.rootGrant grant)]
    (.rootGrant grant)

def recoverRoot (input : RecoverRootInput) : Service RootAccessGrant := do
  match ← read (.root input.rootId) with
  | some (.root root) =>
    ensure (decide (root.homeNodeId = input.homeNodeId) &&
        decide (root.rootEpoch = input.expectedRootEpoch) &&
        decide (root.localPrepareId = input.localPrepareId))
      (invalid "recover request does not match durable root")
    let previous ← read (homeGrantKey root)
    let result ← commitOrReplay (recoveryTxn input.requestId
      (recoveredRoot root input.homeSessionId) (nextGeneration previous))
    takeGrant "recover replay returned wrong result type" result
  | _ => fail (invalid "root was not found")

end

end AgentDx.Roots
