import AgentDx.Lib.Run

/-!
# Checkpoint control inside the guest

The controller inside a guest prepares the guest for a checkpoint and releases it
again.  A prepare call is accepted under the state lock and starts a task that
opens the backend's handoff and runs the guest's hooks; an abort and the end of a
handoff are tasks of their own.  One cooperation lock serialises the tasks, but a
prepare call, a probe and a client's request take only the state lock and run
between their steps.
-/

namespace AgentDx.Execd

inductive RuntimePhase where
  | initializing
  | running
  | preparing
  | prepared
  | restoring
  | failed
  deriving DecidableEq

inductive CheckpointPhase where
  | preparing
  | prepared
  | aborted
  | resumed
  | restored
  | failed
  deriving DecidableEq

inductive HandoffOutcome where
  | resume
  | restore
  | error
  deriving DecidableEq

/-- The errors of the controller. -/
inductive ControlError where
  | invalid (message : String)
  | conflict
  deriving DecidableEq

/-- What a hook of the guest returns: a value or the text of an I/O error. -/
abbrev Hooked (A : Type) := Except String A

structure CheckpointStatus where
  operationId : String
  phase : CheckpointPhase
  error : Option String
  deriving DecidableEq

section Controller

variable (Identity : Type)

structure PrepareCheckpoint where
  idleRevision : Option ℕ
  identity : Identity
  operationId : String
  expectedRevision : ℕ
  deriving DecidableEq

/-- What the state lock protects. -/
structure State where
  identity : Identity
  revision : ℕ
  phase : RuntimePhase
  checkpoint : Option CheckpointStatus
  requestedCheckpoint : Option String
  probeEpoch : ℕ
  probePhase : RuntimePhase
  prepare : Option (PrepareCheckpoint Identity)
  readerRunning : Bool

/-- The counters of the requests a guest serves, and whether it takes more. -/
structure Activity where
  active : ℤ
  revision : ℕ
  admission : Bool

/-- Where a task of the controller is. -/
inductive Stage where
  -- `prepare_guest`
  | preparing (operationId : String)
  | opening (operationId : String)
  | reopening
  | hooking (operationId : String) (reader : Bool)
  | undoing (operationId : String) (reader : Bool) (error : String)
  | undone (operationId : String) (reader : Bool) (message : String)
      (phase : RuntimePhase)
  | failing (message : String) (phase : RuntimePhase)
  | prepared (operationId : String) (reader : Bool)
  -- `read_handoff`
  | reading (operationId : String)
  | handed (outcome : Hooked HandoffOutcome)
  | restoring (previous : Identity)
  | resuming (outcome : HandoffOutcome)
  | concluding (outcome : Hooked HandoffOutcome)
      (restored : Option (Hooked Identity)) (released : Hooked Unit)
  -- `abort_guest`
  | aborting (operationId : String) (identity : Identity) (revision : ℕ)
  | rolling (reopen : Bool)
  | rolled (reopen : Bool) (released : Hooked Unit)
  | settling (released : Hooked Unit)

structure System where
  state : State Identity
  activity : Activity
  probeReadiness : Bool
  cooperation : Option ℕ
  tasks : ℕ → Option (Stage Identity)

end Controller

variable {Identity : Type}

/-! ## Critical sections of the state lock -/

section

variable (state : State Identity) (activity : Activity) (phase : RuntimePhase)

def State.publish : State Identity :=
  if state.probePhase ≠ state.phase then
    { state with
      probeEpoch := state.probeEpoch + 1
      probePhase := state.phase
      revision := state.revision + 1 }
  else
    { state with revision := state.revision + 1 }

/-- The checkpoint in the status, if any, reaches a phase. -/
def State.mark (phase : CheckpointPhase) (error : Option String) : State Identity :=
  { state with
    checkpoint := state.checkpoint.map fun checkpoint =>
      { checkpoint with phase := phase, error := error } }

def State.enter : State Identity :=
  { state with phase := phase }

/-- The phase after a handoff: the probes decide when a guest that has probes is
running again. -/
def handoffProbePhase (probeReadiness : Bool) : RuntimePhase :=
  if probeReadiness then .initializing else .running

def State.failPreparation (error : String) (phase : RuntimePhase) : State Identity :=
  ((state.enter phase).mark .failed (some error)).publish

/-- `quiesce`: stops admission if nothing happened since the caller looked. -/
def Activity.quiesce (expectedRevision : ℕ) : Except ControlError Activity :=
  if activity.active ≠ 0 ∨ activity.revision ≠ expectedRevision then
    .error .conflict
  else
    .ok { activity with admission := false }

def Activity.reopen : Activity :=
  { activity with admission := true }

/-- `char::is_whitespace`: the characters `str::trim` takes off. -/
def isWhitespace (char : Char) : Bool :=
  let code := char.toNat
  (0x9 ≤ code && code ≤ 0xd) || code = 0x20 || code = 0x85 || code = 0xa0 ||
    code = 0x1680 || (0x2000 ≤ code && code ≤ 0x200a) || code = 0x2028 ||
    code = 0x2029 || code = 0x202f || code = 0x205f || code = 0x3000

end

/-- What `prepare` does with a request: it is one that was accepted before, or it
is accepted now. -/
inductive Accepted (Identity : Type) where
  | repeated
  | fresh (state : State Identity) (activity : Activity)

/-- The critical section of `prepare`. -/
def State.acceptPrepare [DecidableEq Identity] (state : State Identity)
    (activity : Activity) (request : PrepareCheckpoint Identity) :
    Except ControlError (Accepted Identity) := do
  if request.operationId.toList.all isWhitespace then
    throw (.invalid "operation id required")
  if state.requestedCheckpoint.any (· ≠ request.operationId) then
    throw .conflict
  if request.identity ≠ state.identity then
    throw .conflict
  if state.prepare.any (·.operationId = request.operationId) then
    if state.prepare ≠ some request then
      throw .conflict
    return .repeated
  if state.phase ≠ .running ∨ request.expectedRevision ≠ state.revision then
    throw .conflict
  let activity ← match request.idleRevision with
    | some revision => activity.quiesce revision
    | none => pure activity
  return .fresh
    { state with
      phase := .preparing
      checkpoint := some ⟨request.operationId, .preparing, none⟩
      prepare := some request }.publish activity

/-- What `abort_guest` finds once it has the cooperation lock. -/
inductive AbortCheck where
  | already
  | proceed (reopen : Bool)

section

variable (state : State Identity) (identity : Identity) (probeReadiness : Bool)

def State.checkAbort [DecidableEq Identity] (state : State Identity)
    (operationId : String) (identity : Identity) (revision : ℕ) :
    Except ControlError AbortCheck := do
  if state.identity ≠ identity ∨ state.checkpoint.all (·.operationId ≠ operationId) then
    throw .conflict
  if state.checkpoint.any (·.phase = .aborted) then
    return .already
  if state.revision ≠ revision ∨ state.phase ≠ .prepared then
    throw .conflict
  return .proceed (state.prepare.any (·.idleRevision.isSome))

/-- The end of `abort_guest`. -/
def State.settleAbort : Hooked Unit → State Identity
  | .ok () => ((state.enter (handoffProbePhase probeReadiness)).mark .aborted
      none).publish
  | .error error => ((state.enter .failed).mark .failed (some error)).publish

/-- A handoff that ends although nothing is prepared. -/
def State.rejectHandoff : State Identity :=
  ({ state with readerRunning := false, phase := .failed }.mark .failed
    (some "handoff received without an active prepared checkpoint")).publish

/-- A handoff that ends with a restore. -/
def State.beginRestore : State Identity :=
  { state with
    readerRunning := false
    requestedCheckpoint := none
    phase := .restoring }.publish

/-- The phases and the error a handoff ends with, and the new identity. -/
def conclusion : Hooked HandoffOutcome → Option (Hooked Identity) → Hooked Unit →
    Identity × RuntimePhase × CheckpointPhase × Option String
  | _, _, .error error => (identity, .failed, .failed, some error)
  | .ok .restore, some (.ok target), .ok () =>
    (target, handoffProbePhase probeReadiness, .restored, none)
  | .ok .restore, some (.error error), .ok () =>
    (identity, .failed, .failed, some error)
  | .ok .restore, none, .ok () =>
    -- a restore always carries the result of its hook
    (identity, .failed, .failed, none)
  | .ok .resume, _, .ok () =>
    (identity, handoffProbePhase probeReadiness, .resumed, none)
  | .ok .error, _, .ok () =>
    (identity, handoffProbePhase probeReadiness, .failed, some "backend handoff reported error")
  | .error error, _, .ok () => (identity, .failed, .failed, some error)

/-- The end of `read_handoff`. -/
def State.conclude
    (outcome : Hooked HandoffOutcome) (restored : Option (Hooked Identity))
    (released : Hooked Unit) : State Identity :=
  let (identity, phase, checkpoint, error) :=
    conclusion state.identity probeReadiness outcome restored released
  ({ state with identity := identity, phase := phase }.mark checkpoint error).publish

/-- Publishes that the guest is prepared. -/
def State.publishPrepared : State Identity :=
  State.publish { state with
    phase := .prepared
    checkpoint := state.checkpoint.map ({ · with phase := .prepared }) }

end

/-! ## Steps -/

/-- The hook that released the guest. -/
inductive Release where
  | rollback
  | resume
  | restore
  deriving DecidableEq

/-- What is seen of the controller: a preparation is accepted, its handoff
cannot be opened, the guest is released, or the guest is released because its own
preparation failed. -/
inductive Event (Identity : Type) where
  | accepted (request : PrepareCheckpoint Identity)
  | unopened
  | released (hook : Release)
  | undone

section Systems

variable (system : System Identity) (id : ℕ)

/-- A task goes on to another stage. -/
def System.advance (stage : Stage Identity) : System Identity :=
  { system with tasks := Function.update system.tasks id (some stage) }

/-- A task that waited for the cooperation lock goes on with it. -/
def System.lock (stage : Stage Identity) : System Identity :=
  { system.advance id stage with cooperation := some id }

/-- A task ends. -/
def System.finish : System Identity :=
  { system with tasks := Function.update system.tasks id none }

/-- A task ends and gives the cooperation lock back. -/
def System.leave : System Identity :=
  { system.finish id with cooperation := none }

/-- `spawn_reader`: the reader runs as a task of its own. -/
def System.spawnReader (operationId : String) : Bool → System Identity
  | true => { system.advance id (.reading operationId) with
      state.readerRunning := true }
  | false => system

end Systems

/-- The controller of a guest that starts; a guest with a readiness probe is not
running yet. -/
def State.initial (identity : Identity) : State Identity where
  identity := identity
  revision := 1
  phase := .running
  checkpoint := none
  requestedCheckpoint := none
  probeEpoch := 1
  probePhase := .running
  prepare := none
  readerRunning := false

def System.start (identity : Identity) (probeReadiness : Bool) (active : ℤ)
    (revision : ℕ) : System Identity where
  state :=
    if probeReadiness then ((State.initial identity).enter .initializing).publish
    else .initial identity
  activity := ⟨active, revision, true⟩
  probeReadiness := probeReadiness
  cooperation := none
  tasks := fun _ => none

/-- What a hook that returned is seen as. -/
def releasedBy (hook : Release) {A : Type} : Hooked A → Option (Event Identity)
  | .ok _ => some (.released hook)
  | .error _ => none

section Steps

variable [DecidableEq Identity]

/-- One critical section of a task, the return of a hook, or a call that takes
only the state lock. -/
inductive Step : System Identity → Option (Event Identity) → System Identity → Prop where
  | prepare {system : System Identity} {id request state activity} (hfree : system.tasks id = none)
      (haccept : system.state.acceptPrepare system.activity request = .ok (.fresh state activity)) :
      Step system (some (.accepted request))
        { system.advance id (.preparing request.operationId) with
          state := state, activity := activity }
  | decline {system : System Identity} {request result}
      (haccept : system.state.acceptPrepare system.activity request = result)
      (hold : ∀ state activity, result ≠ .ok (.fresh state activity)) : Step system none system
  -- `prepare_guest`
  | enter {system : System Identity} {id operationId}
      (htask : system.tasks id = some (.preparing operationId)) (hlock : system.cooperation = none)
      (hphase : system.state.phase = .preparing) : Step system none (system.lock id
        (if system.state.readerRunning then .hooking operationId false
          else .opening operationId))
  | skip {system : System Identity} {id operationId}
      (htask : system.tasks id = some (.preparing operationId)) (hlock : system.cooperation = none)
      (hphase : system.state.phase ≠ .preparing) : Step system none (system.finish id)
  | opened {system : System Identity} {id operationId}
      (htask : system.tasks id = some (.opening operationId)) :
      Step system none (system.advance id (.hooking operationId true))
  | unopened {system : System Identity} {id operationId} (error)
      (htask : system.tasks id = some (.opening operationId)) : Step system (some .unopened)
        { system.advance id .reopening with
          state := system.state.failPreparation error .running }
  | reopen {system : System Identity} {id} (htask : system.tasks id = some .reopening) :
      Step system none
        { system.leave id with activity := system.activity.reopen }
  | hooked {system : System Identity} {id operationId reader}
      (htask : system.tasks id = some (.hooking operationId reader)) : Step system none
        { system.advance id (.prepared operationId reader) with
          state := system.state.publishPrepared }
  | unhooked {system : System Identity} {id operationId reader} (error)
      (htask : system.tasks id = some (.hooking operationId reader)) :
      Step system none (system.advance id (.undoing operationId reader error))
  | undo {system : System Identity} {id operationId error reader}
      (htask : system.tasks id = some (.undoing operationId reader error)) :
      Step system (some .undone) (system.advance id (.undone operationId reader error .running))
  | undoFails {system : System Identity} {id operationId error reader} (rollback)
      (htask : system.tasks id = some (.undoing operationId reader error)) :
      Step system none (system.advance id (.undone operationId reader
        (error ++ "; rollback failed: " ++ rollback) .failed))
  | keepReader {system : System Identity} {id fresh operationId message reader phase}
      (htask : system.tasks id = some (.undone operationId reader message phase))
      (hfree : system.tasks fresh = none) :
      Step system none ((system.spawnReader fresh operationId reader).advance id
        (.failing message phase))
  | fail {system : System Identity} {id message phase}
      (htask : system.tasks id = some (.failing message phase)) : Step system none
        { system.leave id with
          state := system.state.failPreparation message phase }
  | passReader {system : System Identity} {id fresh operationId reader}
      (htask : system.tasks id = some (.prepared operationId reader))
      (hfree : system.tasks fresh = none) :
      Step system none ((system.spawnReader fresh operationId reader).leave id)
  -- `read_handoff`
  | hand {system : System Identity} {id operationId} (outcome)
      (htask : system.tasks id = some (.reading operationId)) :
      Step system none (system.advance id (.handed outcome))
  | reject {system : System Identity} {id outcome}
      (htask : system.tasks id = some (.handed outcome)) (hlock : system.cooperation = none)
      (hphase : system.state.phase ≠ .prepared) : Step system none
        { system.finish id with state := system.state.rejectHandoff }
  | restore {system : System Identity} {id}
      (htask : system.tasks id = some (.handed (.ok .restore))) (hlock : system.cooperation = none)
      (hphase : system.state.phase = .prepared) : Step system none
        { system.lock id (.restoring system.state.identity) with
          state := system.state.beginRestore }
  | resume {system : System Identity} {id outcome}
      (htask : system.tasks id = some (.handed (.ok outcome))) (hlock : system.cooperation = none)
      (hphase : system.state.phase = .prepared) (houtcome : outcome ≠ .restore) : Step system none
        { system.lock id (.resuming outcome) with state.readerRunning := false }
  | lose {system : System Identity} {id error}
      (htask : system.tasks id = some (.handed (.error error))) (hlock : system.cooperation = none)
      (hphase : system.state.phase = .prepared) : Step system none
        { system.lock id (.concluding (.error error) none (.ok ())) with
          state.readerRunning := false }
  | restored {system : System Identity} {id previous} (result)
      (htask : system.tasks id = some (.restoring previous)) :
      Step system (releasedBy .restore result) (system.advance id
        (.concluding (.ok .restore) (some result) (.ok ())))
  | resumed {system : System Identity} {id outcome} (result)
      (htask : system.tasks id = some (.resuming outcome)) : Step system (releasedBy .resume result)
        (system.advance id (.concluding (.ok outcome) none result))
  | conclude {system : System Identity} {id outcome restored released}
      (htask : system.tasks id = some (.concluding outcome restored released)) : Step system none
        { system.leave id with
          state := system.state.conclude system.probeReadiness outcome restored released
          activity := system.activity.reopen }
  -- `abort_guest`
  | abort {system : System Identity} {id} (operationId identity revision)
      (hfree : system.tasks id = none) :
      Step system none (system.advance id (.aborting operationId identity revision))
  | refuseAbort {system : System Identity} {id operationId identity revision result}
      (htask : system.tasks id = some (.aborting operationId identity revision))
      (hlock : system.cooperation = none)
      (hcheck : system.state.checkAbort operationId identity revision = result)
      (hrefused : ∀ reopen, result ≠ .ok (.proceed reopen)) : Step system none (system.finish id)
  | beginAbort {system : System Identity} {id operationId identity revision reopen}
      (htask : system.tasks id = some (.aborting operationId identity revision))
      (hlock : system.cooperation = none)
      (hcheck : system.state.checkAbort operationId identity revision = .ok (.proceed reopen)) :
      Step system none (system.lock id (.rolling reopen))
  | rollback {system : System Identity} {id reopen} (result)
      (htask : system.tasks id = some (.rolling reopen)) :
      Step system (releasedBy .rollback result) (system.advance id (.rolled reopen result))
  | reopened {system : System Identity} {id reopen released}
      (htask : system.tasks id = some (.rolled reopen released)) : Step system none
        { system.advance id (.settling released) with
          activity := if released.isOk && reopen then system.activity.reopen
            else system.activity }
  | settle {system : System Identity} {id released}
      (htask : system.tasks id = some (.settling released)) : Step system none
        { system.leave id with
          state := system.state.settleAbort system.probeReadiness released }
  -- the probes, the workload's own requests and the requests the guest serves
  | probeReady {system : System Identity}
      (hphase : system.state.phase = .initializing) : Step system none
        { system with state := (system.state.enter .running).publish }
  | probeFailed {system : System Identity}
      (hphase : system.state.phase = .initializing ∨ system.state.phase = .running) :
      Step system none
        { system with state := (system.state.enter .failed).publish }
  | request {system} (requested) : Step system none
        { system with
          state := { system.state with
            requestedCheckpoint := requested }.publish }
  | activity {system} (active revision) : Step system none
        { system with
          activity.active := active
          activity.revision := revision }

end Steps

end AgentDx.Execd
