import AgentDx.Platform.Types

/-!
# Stored environments

The Coordinator keeps one record for each environment.  An operation reads the
record, decides what to write, and commits with a script that compares the bytes
it has read.  Lookups of nodes, snapshots and volumes enter as the outcome they
had; they can only make an operation fail.
-/

namespace AgentDx.Platform.Coordinator

structure Recovery where
  source : Assignment
  pending : Bool
  deriving DecidableEq, Repr

structure ResumeIntent where
  operationId : String
  localRejected : Bool
  deriving DecidableEq, Repr

structure AuthorizedExecution where
  runtimeId : String
  nodeSessionId : String
  revision : ℕ
  released : Bool
  deriving DecidableEq, Repr

structure StoredEnvironment where
  creationGeneration : ℕ
  volumeExecution : Option AuthorizedExecution
  resume : Option ResumeIntent
  recovery : Option Recovery
  invalidated : Bool
  spec : EnvironmentSpec
  assignment : Assignment
  result : Option EnvironmentRecord
  deriving DecidableEq, Repr

/-! ## Results -/

section

variable (old : StoredEnvironment) (r : EnvironmentRecord) (stored : StoredEnvironment)
  (point : RestorePoint)

def validOrigin : Bool :=
  match point.origin with
  | none => validRuntimeId r.spec.id r.assignment.generation point.sourceRuntimeId
  | some origin =>
    (if origin.environmentId = r.spec.id then
      origin.ownershipGeneration < r.assignment.generation
    else r.spec.snapshotId.isSome) && origin.runtimeId = point.sourceRuntimeId &&
    validRuntimeId origin.environmentId origin.ownershipGeneration origin.runtimeId

def validPoint : Bool :=
  point.id ≠ "" && point.artifact.storage ≠ "" && point.artifact.location ≠ "" &&
    point.artifact.sizeBytes ≠ 0 && point.expiresAtUnixSeconds ≠ some 0 && validOrigin r point

def validateResult : Result Unit := do
  ensure (r.restartAttempts ≤ r.spec.restart.getD 0 && (!r.restartPending || r.state = .failed &&
      r.spec.restart.any (r.restartAttempts < ·))) .conflict
  ensure (r.revision ≠ 0 && validRuntimeId r.spec.id r.assignment.generation r.runtime.id) .conflict
  ensure ((r.checkpoint.or r.snapshotSource).all (validPoint r)) .conflict
  ensure (r.lastOperation.all fun operation => operation.id ≠ "" &&
    operation.expectedRevision ≠ 0 && operation.expectedRevision < r.revision) .conflict
  ensure (match r.state with
    | .running => r.resourcesHeld && r.runtime.ip.isSome
    | .paused => !r.resourcesHeld && r.runtime.ip.isNone &&
        (r.checkpoint.isSome || r.snapshotSource.isSome)
    | .deleted => !r.resourcesHeld
    | .failed => true
    | _ => false)
    (.invalid "expected a completed node result with consistent resource ownership")

/-- What an invalidated execution may still report. -/
def retiredResult : Bool :=
  (r.state = .failed || r.state = .deleted || r.state = .paused) &&
    !r.resourcesHeld && !r.restartPending && r.runtime.ip.isNone &&
    (r.state ≠ .paused || old.result.any (·.state = .paused)) &&
    (r.state = .deleted || old.result.any (·.checkpoint = r.checkpoint))

def restarting (previous r : EnvironmentRecord) : Bool :=
  previous.state = .failed && previous.restartPending && previous.restartAttempts + 1 < 2 ^ 32 &&
    previous.restartAttempts + 1 = r.restartAttempts &&
    r.runtime.id ≠ previous.runtime.id && r.checkpoint = previous.checkpoint &&
    (r.state = .running || r.state = .failed)

def resumeCompleted (previous r : EnvironmentRecord) : Bool :=
  let prepared := (previous.checkpoint.or previous.snapshotSource).any fun point =>
    previous.executionArtifacts.contains point.artifact
  previous.state = .paused && r.checkpoint = previous.checkpoint &&
    r.snapshotSource = previous.snapshotSource && r.runtime.id ≠ previous.runtime.id &&
    (r.state = .failed || r.lastOperation.any fun operation =>
      operation.kind = .resume &&
        -- input reservation adds one paused revision before the backend starts
        (operation.expectedRevision = previous.revision ||
          operation.expectedRevision + 1 = previous.revision && prepared &&
            (old.resume.all (·.operationId = operation.id) || old.recovery.any (·.pending))))

def nextResult : Result Bool := do
  ensure ({ old.spec with network := r.spec.network } = r.spec &&
    old.assignment = r.assignment) .conflict
  validateResult r
  ensure (!old.invalidated || retiredResult old r) .conflict
  match old.result with
  | none => return true
  | some previous =>
    if previous = r then
      return false
    ensure (previous.restartAttempts ≤ r.restartAttempts &&
      (r.restartAttempts = previous.restartAttempts || restarting previous r) &&
      previous.revision < r.revision && previous.state ≠ .deleted &&
      (previous.resourcesHeld || !r.resourcesHeld || restarting previous r ||
        resumeCompleted old previous r)) .conflict
    return true

/-- The record as an invalidation finds it: an execution that was authorized after
the last result counts as pending. -/
def StoredEnvironment.effectiveRecord : EnvironmentRecord :=
  let record := stored.result.getD
    { spec := stored.spec
      assignment := stored.assignment
      state := .pending
      revision := 0
      runtime := ⟨runtimeBase stored.spec.id stored.assignment.generation, none⟩
      resourcesHeld := true
      checkpoint := none
      snapshotSource := none
      executionArtifacts := []
      lastOperation := none
      restartAttempts := 0
      restartPending := false
      notes := "" }
  match stored.volumeExecution with
  | none => record
  | some execution =>
    if !stored.invalidated && !execution.released && record.runtime.id ≠ execution.runtimeId then
      { record with
        runtime := ⟨execution.runtimeId, none⟩
        state := .pending
        revision := execution.revision - 1
        resourcesHeld := true
        lastOperation := none }
    else record

/-- `StoredEnvironment::validate`; `specValid` stands for the checks of the
specification and of the devices assigned to it. -/
def StoredEnvironment.validate (specValid : EnvironmentSpec → Assignment → Bool)
    (stored : StoredEnvironment) : Result Unit := do
  ensure (specValid stored.spec stored.assignment) (.invalid "specification")
  ensure (stored.spec.id = stored.assignment.environmentId && stored.creationGeneration ≠ 0 &&
    stored.creationGeneration ≤ stored.assignment.generation) .conflict
  match stored.result with
  | none => pure ()
  | some r =>
    validateResult r
    ensure (r.spec = stored.spec && r.assignment = stored.assignment) .conflict
  ensure (stored.volumeExecution.all fun execution => execution.revision ≠ 0 &&
    execution.nodeSessionId ≠ "" &&
    validRuntimeId stored.spec.id stored.assignment.generation execution.runtimeId)
    .conflict

def StoredEnvironment.initial (spec : EnvironmentSpec) (assignment : Assignment) :
    StoredEnvironment where
  creationGeneration := assignment.generation
  volumeExecution := none
  resume := none
  recovery := none
  invalidated := false
  spec := spec
  assignment := assignment
  result := none

end

/-! ## Decisions -/

/-- What an operation does to the record it has read. -/
inductive Plan where
  /-- The record already says it. -/
  | keep
  | write (next : StoredEnvironment)
  | remove

section Decisions

variable (specValid : EnvironmentSpec → Assignment → Bool)
  (read : Option StoredEnvironment)

section

variable (spec : EnvironmentSpec) (previous replacement : Assignment) (stored : StoredEnvironment)
  (result : EnvironmentRecord) (assignment : Assignment) (now : ℕ) (session : String)
  (stopped : List String)

/-- `Session::reserve_with_request`. -/
def reserveWithRequest : Result Plan := do
  (StoredEnvironment.initial spec assignment).validate specValid
  match read with
  | some existing =>
    ensure (existing.spec = spec && existing.assignment = assignment) .conflict
    return .keep
  | none => return .write (.initial spec assignment)

/-- `Session::claim` and one entry of `claim_batch`. -/
def claim : Result Plan := do
  match read with
  | some existing =>
    ensure (existing.spec = spec) .conflict
    return .keep
  | none =>
    (StoredEnvironment.initial spec assignment).validate specValid
    return .write (.initial spec assignment)

def replaceRejected : Result Plan := do
  ensure (previous.environmentId = replacement.environmentId &&
    previous.generation < replacement.generation) .conflict
  match read with
  | none => throw .notFound
  | some stored =>
    stored.validate specValid
    if stored.assignment = replacement then
      return .keep
    ensure (!stored.invalidated && stored.assignment = previous &&
      stored.result.all fun r => r.state = .failed && !r.resourcesHeld) .conflict
    let next := { stored with
      assignment := replacement, volumeExecution := none, result := none }
    next.validate specValid
    return .write next

/-- `Session::publish_success`, for `publish_initial` and `publish_existing`. -/
def publishSuccess (record : EnvironmentRecord) (requireExisting : Bool) : Result Plan := do
  validateResult record
  ensure (record.state = .running) .conflict
  let next := { StoredEnvironment.initial record.spec record.assignment with
    result := some record }
  match read with
  | none =>
    ensure (!requireExisting) .notFound
    return .write next
  | some previous =>
    previous.validate specValid
    if previous.result.isSome then
      return .keep
    ensure (!requireExisting) .notFound
    ensure (previous.assignment = record.assignment &&
      previous.spec = record.spec && !previous.invalidated) .conflict
    return .write { next with volumeExecution := previous.volumeExecution }

/-- `Session::abandon_initial`. -/
def abandonInitial : Plan :=
  match read with
  | none => .keep
  | some stored =>
    if stored.spec.volumes ≠ [] || stored.assignment ≠ assignment ||
        stored.result.isSome || stored.recovery.isSome then
      .keep
    else .remove

/-- `Session::authorize_volumes`, with the outcome of the node lookup. -/
def authorizeVolumes (request : EnvironmentRecord) (previous session : String)
    (nodeReady : Bool) : Result Plan := do
  if request.spec.volumes = [] then
    return .keep
  ensure ((request.state = .starting || request.state = .resuming) &&
    request.resourcesHeld && request.revision ≠ 0 &&
    validRuntimeId request.spec.id request.assignment.generation request.runtime.id) .conflict
  match read with
  | none => throw .notFound
  | some stored =>
    stored.validate specValid
    ensure (stored.spec = request.spec && stored.assignment = request.assignment &&
      !stored.invalidated && nodeReady && stored.result.all (·.state ≠ .deleted)) .conflict
    let initial := runtimeBase request.spec.id request.assignment.generation
    let observed := (stored.result.map (·.runtime.id)).getD initial
    let oldRuntime := (stored.volumeExecution.map (·.runtimeId)).getD observed
    let oldRevision := (stored.volumeExecution.map (·.revision)).getD
      ((stored.result.map (·.revision)).getD 0)
    if request.runtime.id = oldRuntime then
      ensure ((previous = oldRuntime || previous = observed) &&
        (stored.volumeExecution.all fun execution => !execution.released &&
          execution.nodeSessionId = session && execution.revision = request.revision) &&
        stored.result.all fun r => r.runtime.id ≠ request.runtime.id ||
          r.revision < request.revision) .conflict
    else
      ensure (previous = oldRuntime && oldRevision < request.revision &&
        request.runtime.id = initial ++ "-r" ++ toString request.revision) .conflict
    return .write { stored with
      volumeExecution := some ⟨request.runtime.id, session, request.revision, false⟩ }

/-- The record after `commit_releasing` accepted the result. -/
def StoredEnvironment.accept : StoredEnvironment where
  creationGeneration := stored.creationGeneration
  volumeExecution := stored.volumeExecution.map fun execution =>
    if result.spec.volumes ≠ [] && !result.resourcesHeld &&
        execution.nodeSessionId = session && stopped.contains execution.runtimeId then
      { execution with released := true }
    else execution
  resume := if result.state = .paused then stored.resume else none
  recovery := if result.state = .paused then stored.recovery
    else stored.recovery.map ({ · with pending := false })
  invalidated := stored.invalidated
  spec := result.spec
  assignment := stored.assignment
  result := some result

/-- `Session::commit_releasing_with_cleanup_state`. -/
def commitReleasing : Result Plan := do
  ensure (stopped = [] || session ≠ "" && stopped.length ≤ 1024 &&
    stopped.all (validRuntimeId result.spec.id result.assignment.generation))
    (.invalid "invalid stopped execution identities")
  match read with
  | none => throw .notFound
  | some stored =>
    let changes ← nextResult stored result
    if !(changes || result.state = .running && stored.resume.isSome) && stopped = [] then
      return .keep
    let next := stored.accept result session stopped
    next.validate specValid
    return if result.state = .deleted then .remove else .write next

/-- The result an invalidation leaves. -/
def StoredEnvironment.retired (revision : ℕ) : EnvironmentRecord :=
  let record := stored.effectiveRecord
  let autonomous := stored.resume.isNone && stored.recovery.any (·.pending)
  { record with
    state := if record.state ≠ .paused || autonomous then .failed else record.state
    revision := revision
    resourcesHeld := false
    runtime := ⟨record.runtime.id, none⟩
    restartPending := false
    lastOperation := none }

/-- One environment in `Session::invalidate_node_with_departure`. -/
def invalidateNode (nodeId : String) : Result Plan := do
  match read with
  | none => return .keep
  | some stored =>
    if stored.assignment.nodeId ≠ nodeId || stored.invalidated ||
        stored.result.any (·.state = .deleted) then
      return .keep
    let revision ← checkedAdd stored.effectiveRecord.revision 1
    let next := { stored with
      volumeExecution := stored.volumeExecution.map ({ · with released := true })
      invalidated := true
      result := some (stored.retired revision) }
    next.validate specValid
    return .write next

def StoredEnvironment.recoveryPoint : Option RestorePoint := do
  let record ← stored.result
  guard (stored.invalidated ∧ record.state = .failed ∧ !record.resourcesHeld)
  (record.checkpoint.or record.snapshotSource).filter fun point =>
    point.artifact.storage ≠ "local" && !point.expired now

def StoredEnvironment.resumePoint : Option RestorePoint := do
  let record ← stored.result
  guard (record.state = .paused ∧ !record.resourcesHeld ∧
    stored.resume.any fun intent => stored.invalidated || intent.localRejected)
  (record.checkpoint.or record.snapshotSource).filter fun point =>
    point.artifact.storage ≠ "local" && !point.expired now

/-- The paused record that the new owner of a recovery starts from. -/
def recoveredRecord (source : EnvironmentRecord)
    (replacement : Assignment) (point : RestorePoint) : EnvironmentRecord where
  spec := stored.spec
  assignment := replacement
  state := .paused
  revision := 1
  runtime := ⟨runtimeBase stored.spec.id replacement.generation, none⟩
  resourcesHeld := false
  checkpoint := if source.snapshotSource.isSome && source.checkpoint.isNone then none
    else some { point with
      origin := some (point.origin.getD
        ⟨stored.spec.id, stored.assignment.generation, point.sourceRuntimeId⟩) }
  snapshotSource := source.snapshotSource
  executionArtifacts := []
  lastOperation := none
  restartAttempts := 0
  restartPending := false
  notes := ""

/-- `Session::reserve_recovery`, with the outcome of the node lookup. -/
def reserveRecovery
    (targetReady : Bool) : Result Plan := do
  ensure (previous.environmentId = replacement.environmentId &&
    previous.nodeId ≠ replacement.nodeId && previous.generation < replacement.generation) .conflict
  match read with
  | none => throw .notFound
  | some stored =>
    stored.validate specValid
    if stored.assignment = replacement && stored.recovery.any (·.source = previous) then
      return .keep
    ensure (stored.assignment = previous) .conflict
    match (stored.recoveryPoint now).or (stored.resumePoint now), stored.result with
    | some point, some source =>
      ensure targetReady .conflict
      let next := { stored with
        volumeExecution := none
        resume := stored.resume.map ({ · with localRejected := false })
        recovery := some ⟨previous, true⟩
        invalidated := false
        assignment := replacement
        result := some (recoveredRecord stored source replacement point) }
      next.validate specValid
      return .write next
    | _, _ => throw .conflict

end

end Decisions

/-! ## What each decision writes -/

section Writes

variable {specValid : EnvironmentSpec → Assignment → Bool}
  {read : Option StoredEnvironment} {new : StoredEnvironment}

lemma reserveWithRequest_write
    (hplan : reserveWithRequest specValid read spec assignment = .ok (.write new)) :
    read = none ∧ new = .initial spec assignment := by
  simp only [reserveWithRequest, bind_eq_ok] at hplan
  obtain ⟨-, -, hplan⟩ := hplan
  cases read with
  | some existing =>
    simp only [bind_eq_ok] at hplan
    obtain ⟨-, -, hset⟩ := hplan
    cases hset
  | none =>
    cases hplan
    exact ⟨rfl, rfl⟩

lemma claim_write (hplan : claim specValid read spec assignment = .ok (.write new)) :
    read = none ∧ new = .initial spec assignment := by
  cases read with
  | some existing =>
    simp only [claim, bind_eq_ok] at hplan
    obtain ⟨-, -, hset⟩ := hplan
    cases hset
  | none =>
    simp only [claim, bind_eq_ok] at hplan
    obtain ⟨-, -, hset⟩ := hplan
    cases hset
    exact ⟨rfl, rfl⟩

lemma replaceRejected_write
    (hplan : replaceRejected specValid read previous replacement = .ok (.write new)) :
    ∃ old, read = some old ∧ old.invalidated = false ∧
      old.assignment.generation < replacement.generation ∧ new = { old with
        assignment := replacement, volumeExecution := none, result := none } := by
  simp only [replaceRejected, bind_eq_ok, ensure_eq_ok, Bool.and_eq_true,
    decide_eq_true_eq] at hplan
  obtain ⟨-, ⟨-, hgen⟩, hplan⟩ := hplan
  cases read with
  | none => cases hplan
  | some old =>
    simp only [bind_eq_ok] at hplan
    obtain ⟨-, -, hplan⟩ := hplan
    split at hplan
    · cases hplan
    · simp only [bind_eq_ok, ensure_eq_ok, Bool.and_eq_true, decide_eq_true_eq,
        Bool.not_eq_true'] at hplan
      obtain ⟨-, ⟨⟨hok, rfl⟩, -⟩, -, -, hset⟩ := hplan
      cases hset
      exact ⟨old, rfl, hok, hgen, rfl⟩

lemma publishSuccess_write
    (hplan : publishSuccess specValid read record requireExisting = .ok (.write new)) :
    record.state = .running ∧ new.result = some record ∧ new.assignment = record.assignment ∧
      ∀ old, read = some old → old.result = none ∧ old.invalidated = false ∧
        old.assignment = record.assignment := by
  simp only [publishSuccess, bind_eq_ok, ensure_eq_ok, decide_eq_true_eq] at hplan
  obtain ⟨-, -, -, hruns, hplan⟩ := hplan
  cases read with
  | none =>
    simp only [bind_eq_ok] at hplan
    obtain ⟨-, -, hset⟩ := hplan
    cases hset
    exact ⟨hruns, rfl, rfl, by simp⟩
  | some old =>
    simp only [bind_eq_ok] at hplan
    obtain ⟨-, -, hplan⟩ := hplan
    split at hplan
    · cases hplan
    next hnil =>
      simp only [bind_eq_ok, ensure_eq_ok, Bool.and_eq_true, decide_eq_true_eq,
        Bool.not_eq_true'] at hplan
      obtain ⟨-, -, -, ⟨⟨hplace, -⟩, hok⟩, hset⟩ := hplan
      cases hset
      refine ⟨hruns, rfl, rfl, fun found hget => ?_⟩
      obtain rfl := Option.some.inj hget
      exact ⟨by simpa using hnil, hok, hplace⟩

lemma authorizeVolumes_write
    (hplan : authorizeVolumes specValid read request previous session nodeReady =
      .ok (.write new)) :
    ∃ old execution, read = some old ∧ old.invalidated = false ∧
      new = { old with volumeExecution := execution } := by
  simp only [authorizeVolumes] at hplan
  split at hplan
  · cases hplan
  · simp only [bind_eq_ok] at hplan
    obtain ⟨-, -, hplan⟩ := hplan
    cases read with
    | none => cases hplan
    | some old =>
      simp only [bind_eq_ok, ensure_eq_ok, Bool.and_eq_true, decide_eq_true_eq,
        Bool.not_eq_true'] at hplan
      obtain ⟨-, -, -, ⟨⟨⟨-, hok⟩, -⟩, -⟩, hplan⟩ := hplan
      split at hplan <;>
      · simp only [bind_eq_ok] at hplan
        obtain ⟨-, -, hset⟩ := hplan
        cases hset
        exact ⟨old, _, rfl, hok, rfl⟩

lemma commitReleasing_write
    (hplan : commitReleasing specValid read result session stopped = .ok (.write new)) :
    ∃ old changes, read = some old ∧ nextResult old result = .ok changes ∧
      result.state ≠ .deleted ∧ new = old.accept result session stopped := by
  simp only [commitReleasing, bind_eq_ok] at hplan
  obtain ⟨-, -, hplan⟩ := hplan
  cases read with
  | none => cases hplan
  | some old =>
    simp only [bind_eq_ok] at hplan
    obtain ⟨changes, hnext, hplan⟩ := hplan
    split at hplan
    · cases hplan
    · simp only [bind_eq_ok] at hplan
      obtain ⟨-, -, hset⟩ := hplan
      split at hset
      · cases hset
      · cases hset
        exact ⟨old, changes, rfl, hnext, ‹_›, rfl⟩

lemma invalidateNode_write (hplan : invalidateNode specValid read nodeId = .ok (.write new)) :
    ∃ old, read = some old ∧ new = { old with
      volumeExecution := old.volumeExecution.map ({ · with released := true })
      invalidated := true
      result := some (old.retired (old.effectiveRecord.revision + 1)) } := by
  cases read with
  | none => cases hplan
  | some old =>
    simp only [invalidateNode] at hplan
    split at hplan
    · cases hplan
    · simp only [bind_eq_ok, checkedAdd_eq_ok] at hplan
      obtain ⟨revision, ⟨-, rfl⟩, -, -, hset⟩ := hplan
      cases hset
      exact ⟨old, rfl, rfl⟩

lemma reserveRecovery_write
    (hplan : reserveRecovery specValid read previous replacement now targetReady =
      .ok (.write new)) :
    ∃ old source point, read = some old ∧ new.assignment = replacement ∧
      old.assignment.nodeId ≠ replacement.nodeId ∧
      old.assignment.generation < replacement.generation ∧
      new.result = some (recoveredRecord old source replacement point) := by
  simp only [reserveRecovery, bind_eq_ok, ensure_eq_ok, Bool.and_eq_true,
    decide_eq_true_eq] at hplan
  obtain ⟨-, ⟨⟨-, hnode⟩, hgen⟩, hplan⟩ := hplan
  cases read with
  | none => cases hplan
  | some old =>
    simp only [bind_eq_ok] at hplan
    obtain ⟨-, -, hplan⟩ := hplan
    split at hplan
    · cases hplan
    · simp only [bind_eq_ok, ensure_eq_ok, decide_eq_true_eq] at hplan
      obtain ⟨-, rfl, hplan⟩ := hplan
      split at hplan
      · simp only [bind_eq_ok] at hplan
        obtain ⟨-, -, -, -, hset⟩ := hplan
        cases hset
        exact ⟨old, _, _, rfl, rfl, hnode, hgen, rfl⟩
      · cases hplan

end Writes

end AgentDx.Platform.Coordinator
