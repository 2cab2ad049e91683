import AgentDx.Lib.Run

/-!
# The degradation journal of a node

A node publishes the results of its environments to the cluster.  While the
cluster cannot be reached, results wait in a local database and are published
later, in order, by the next commit of the same environment, by a flush or by
the recovery after a restart.  Commits of one environment exclude each other, a
flush and a recovery exclude everything, and between two accesses to the
database or the cluster anything else may run.
-/

namespace AgentDx.Adxlet

/-! ## Results -/

inductive EnvironmentState where
  | pending
  | starting
  | running
  | pausing
  | paused
  | resuming
  | deleting
  | deleted
  | failed
  deriving DecidableEq

/-- A specification: `details` is the text of the fields the journal does not
look at. -/
structure EnvironmentSpec where
  id : String
  mountsVolume : Bool
  details : String
  deriving DecidableEq

structure Assignment where
  environmentId : String
  nodeId : String
  shardId : ℕ
  generation : ℕ
  devices : List String
  deriving DecidableEq

structure EnvironmentRecord where
  spec : EnvironmentSpec
  assignment : Assignment
  state : EnvironmentState
  revision : ℕ
  resourcesHeld : Bool
  restartPending : Bool
  details : String
  deriving DecidableEq

/-- A result that waits for publication, with its evidence of cleanup. -/
structure Pending where
  record : EnvironmentRecord
  stoppedRuntimeIds : List String
  cleanupArtifacts : List String
  deriving DecidableEq

def Pending.environment (pending : Pending) : String := pending.record.spec.id

/-- A row of the database: the sequence number and the result. -/
structure Entry where
  sequence : ℕ
  pending : Pending
  deriving DecidableEq

def Entry.environment (entry : Entry) : String := entry.pending.environment

/-- `SELECT … WHERE environment = ?1 ORDER BY sequence`. -/
def entriesOf (environment : String) (database : List Entry) : List Entry :=
  database.filter (·.environment = environment)

/-- `DELETE … WHERE sequence = ?1`. -/
def acknowledge (sequence : ℕ) (database : List Entry) : List Entry :=
  database.filter (·.sequence ≠ sequence)

/-- A later result of an environment that must not follow an earlier one. -/
def supersedes (latest record : EnvironmentRecord) : Bool :=
  latest.assignment ≠ record.assignment || latest.spec ≠ record.spec ||
    decide (record.revision ≤ latest.revision)

/-- `commit_with_details` refuses a result that conflicts with the latest one. -/
def commitConflicts (entries : List Entry) (pending : Pending) : Bool :=
  entries.getLast?.any fun latest =>
    latest.pending ≠ pending && supersedes latest.pending.record pending.record

/-- What `append` does with a result. -/
inductive Appended where
  | present
  | conflict
  | inserted

def appendChecks (database : List Entry) (pending : Pending) : Appended :=
  match (entriesOf pending.environment database).getLast? with
  | none => .inserted
  | some old =>
    if old.pending = pending then .present
    else if old.pending.record ≠ pending.record &&
        supersedes old.pending.record pending.record then .conflict
    else .inserted

/-! ## Recovery -/

def EnvironmentState.terminal : EnvironmentState → Bool
  | .failed | .deleted => true
  | _ => false

/-- The catalog still grants the node the ownership a result was produced
under. -/
def grants (current : EnvironmentRecord) (pending : Pending) : Bool :=
  current.assignment = pending.record.assignment && current.spec = pending.record.spec &&
    (!current.state.terminal || current.resourcesHeld ||
      current.restartPending || !pending.stoppedRuntimeIds.isEmpty)

/-- What recovery does with a result. -/
inductive Verdict where
  | conflict
  | publish
  | discard
  deriving DecidableEq

def recoverVerdict (catalog : List EnvironmentRecord) (pending : Pending) : Verdict :=
  match catalog.find? (·.spec.id = pending.environment) with
  | none => .discard
  | some current =>
    if grants current pending then
      if current.revision = pending.record.revision ∧ current ≠ pending.record then
        .conflict
      else if current.revision < pending.record.revision ∨
          (current.revision = pending.record.revision ∧ pending.stoppedRuntimeIds ≠ []) then
        .publish
      else
        .discard
    else
      .discard

/-! ## Tasks -/

/-- What the cluster answers when a result is offered. -/
inductive Answer where
  | published
  | journaled
  | conflict
  | notFound
  | unavailable
  | refused
  deriving DecidableEq

/-- Why a result is removed. -/
inductive Cause where
  | published
  | unassigned
  | catalog (catalog : List EnvironmentRecord)
  deriving DecidableEq

/-- What a task publishes pending results for. -/
inductive Goal where
  | commit (pending : Pending)
  | prepare (environment : String)
  | flush

def Goal.environment? : Goal → Option String
  | .commit pending => some pending.environment
  | .prepare environment => some environment
  | .flush => none

/-- Where a task is. -/
inductive Stage where
  -- waits for its environment
  | admitted (goal : Goal)
  -- `publish`
  | publishing (goal : Goal) (entries : List Entry)
  | offering (goal : Goal) (entry : Entry) (rest : List Entry)
  | checking (goal : Goal) (entry : Entry) (rest : List Entry)
  | removing (goal : Goal) (entry : Entry) (rest : List Entry) (cause : Cause)
  -- the result of the commit itself
  | direct (pending : Pending)
  | appending (pending : Pending)
  -- `recover`
  | recovering (catalog : List EnvironmentRecord) (entries : List Entry)
  | reoffering (catalog : List EnvironmentRecord) (entry : Entry)
      (rest : List Entry)
  | dropping (catalog : List EnvironmentRecord) (entry : Entry)
      (rest : List Entry) (cause : Cause)

/-- The environment whose lock a task holds. -/
def Stage.locks : Stage → Option String
  | .admitted _ | .recovering .. | .reoffering .. | .dropping .. => none
  | .publishing goal _ | .offering goal _ _ | .checking goal _ _
  | .removing goal _ _ _ => goal.environment?
  | .direct pending | .appending pending => some pending.environment

/-- The task holds the journal for itself. -/
def Stage.exclusive : Stage → Bool
  | .admitted _ | .direct _ | .appending _ => false
  | .publishing goal _ | .offering goal _ _ | .checking goal _ _
  | .removing goal _ _ _ => goal.environment?.isNone
  | .recovering .. | .reoffering .. | .dropping .. => true

structure System where
  /-- The database file exists. -/
  created : Bool
  database : List Entry
  nextSequence : ℕ
  ready : Bool
  tasks : ℕ → Option Stage

def System.start : System := ⟨false, [], 1, true, fun _ => none⟩

def System.advance (system : System) (id : ℕ) (stage : Stage) : System :=
  { system with tasks := Function.update system.tasks id (some stage) }

def System.finish (system : System) (id : ℕ) : System :=
  { system with tasks := Function.update system.tasks id none }

/-- `publish` returned an error: a commit journals its result if the cluster or
the database was unavailable. -/
def System.failed (system : System) (id : ℕ) : Goal → Bool → System
  | .commit pending, true => system.advance id (.appending pending)
  | _, _ => system.finish id

def System.insert (system : System) (pending : Pending) : System :=
  { system with
    created := true
    database := system.database ++ [⟨system.nextSequence, pending⟩]
    nextSequence := system.nextSequence + 1 }

/-! ## Steps -/

/-- What is seen of the journal. -/
inductive Event where
  /-- A result is offered to the cluster, from the database or directly. -/
  | offered (sequence : Option ℕ) (pending : Pending)
  | answered (entry : Entry) (answer : Answer)
  /-- `has_current_assignment` answers that nothing has the assignment. -/
  | unassigned (entry : Entry)
  | journaled (pending : Pending)
  | removed (entry : Entry) (cause : Cause)

/-- One access of a task to the database or the cluster, a call, or a restart of
the process.  A call that is refused before it has done anything is left out. -/
inductive Step : System → Option Event → System → Prop where
  -- calls
  | commit {system : System} {id} (pending) (hfree : system.tasks id = none)
      (hshared : ∀ other stage, system.tasks other = some stage → stage.exclusive = false)
      (hready : system.ready = true) :
      Step system none (system.advance id (.admitted (.commit pending)))
  | prepare {system : System} {id} (record : EnvironmentRecord)
      (hvolume : record.spec.mountsVolume = true) (hfree : system.tasks id = none)
      (hshared : ∀ other stage, system.tasks other = some stage → stage.exclusive = false)
      (hready : system.ready = true) :
      Step system none (system.advance id (.admitted (.prepare record.spec.id)))
  | flush {system : System} {id} (hidle : ∀ other, system.tasks other = none)
      (hready : system.ready = true) :
      Step system none (system.advance id (.publishing .flush system.database))
  | recover {system : System} {id} (catalog) (hidle : ∀ other, system.tasks other = none) :
      Step system none
        { system.advance id (.recovering catalog system.database) with
          ready := false }
  -- a commit or a preparation has the lock of its environment
  | enter {system : System} {id goal environment} (htask : system.tasks id = some (.admitted goal))
      (hgoal : goal.environment? = some environment)
      (hfree : ∀ other stage, system.tasks other = some stage → stage.locks ≠ some environment)
      (hagrees : ∀ pending, goal = .commit pending →
        commitConflicts (entriesOf environment system.database) pending = false) :
      Step system none (system.advance id
        (.publishing goal (entriesOf environment system.database)))
  -- `publish`
  | offer {system : System} {id goal entry rest}
      (htask : system.tasks id = some (.publishing goal (entry :: rest))) :
      Step system (some (.offered (some entry.sequence) entry.pending))
        (system.advance id (.offering goal entry rest))
  | published {system : System} {id goal entry rest}
      (htask : system.tasks id = some (.offering goal entry rest)) :
      Step system (some (.answered entry .published))
        (system.advance id (.removing goal entry rest .published))
  | rejected {system : System} {id goal entry rest answer}
      (htask : system.tasks id = some (.offering goal entry rest))
      (hanswer : answer = .conflict ∨ answer = .notFound) :
      Step system (some (.answered entry answer)) (system.advance id (.checking goal entry rest))
  | unpublished {system : System} {id goal entry rest answer}
      (htask : system.tasks id = some (.offering goal entry rest))
      (hanswer : answer = .journaled ∨ answer = .unavailable ∨ answer = .refused) :
      Step system (some (.answered entry answer)) (system.failed id goal (answer ≠ .refused))
  | disowned {system : System} {id goal entry rest}
      (htask : system.tasks id = some (.checking goal entry rest)) :
      Step system (some (.unassigned entry))
        (system.advance id (.removing goal entry rest .unassigned))
  | owned {system : System} {id goal entry rest} (unavailable)
      (htask : system.tasks id = some (.checking goal entry rest)) :
      Step system none (system.failed id goal unavailable)
  | remove {system : System} {id goal entry rest cause}
      (htask : system.tasks id = some (.removing goal entry rest cause)) :
      Step system (some (.removed entry cause))
        { system.advance id (.publishing goal rest) with
          database := acknowledge entry.sequence system.database }
  | removeFails {system : System} {id goal entry rest cause}
      (htask : system.tasks id = some (.removing goal entry rest cause)) :
      Step system none (system.failed id goal true)
  -- everything earlier is published
  | offerDirect {system : System} {id pending}
      (htask : system.tasks id = some (.publishing (.commit pending) [])) :
      Step system (some (.offered none pending)) (system.advance id (.direct pending))
  | answerDirect {system : System} {id : ℕ} {pending : Pending}
      (answer : Answer) (htask : system.tasks id = some (.direct pending)) : Step system none
        (if answer = .journaled ∨ answer = .unavailable then
          system.advance id (.appending pending)
        else
          system.finish id)
  -- `append`
  | append {system : System} {id pending} (htask : system.tasks id = some (.appending pending))
      (hchecks : appendChecks system.database pending = .inserted) :
      Step system (some (.journaled pending)) ((system.insert pending).finish id)
  | appendUnsynced {system : System} {id pending}
      (htask : system.tasks id = some (.appending pending))
      (hchecks : appendChecks system.database pending = .inserted) :
      Step system none ((system.insert pending).finish id)
  | present {system : System} {id pending} (htask : system.tasks id = some (.appending pending))
      (hchecks : appendChecks system.database pending = .present) :
      Step system (some (.journaled pending)) (system.finish id)
  | appendFails {system : System} {id pending} (created)
      (htask : system.tasks id = some (.appending pending)) : Step system none
        { system.finish id with created := system.created || created }
  -- `recover`
  | recoverDone {system : System} {id catalog}
      (htask : system.tasks id = some (.recovering catalog [])) :
      Step system none { system.finish id with ready := true }
  | reoffer {system : System} {id catalog entry rest}
      (htask : system.tasks id = some (.recovering catalog (entry :: rest)))
      (hverdict : recoverVerdict catalog entry.pending = .publish) :
      Step system (some (.offered (some entry.sequence) entry.pending))
        (system.advance id (.reoffering catalog entry rest))
  | republished {system : System} {id catalog entry rest}
      (htask : system.tasks id = some (.reoffering catalog entry rest)) :
      Step system (some (.answered entry .published))
        (system.advance id (.dropping catalog entry rest .published))
  | discard {system : System} {id catalog entry rest}
      (htask : system.tasks id = some (.recovering catalog (entry :: rest)))
      (hverdict : recoverVerdict catalog entry.pending = .discard) :
      Step system none (system.advance id (.dropping catalog entry rest (.catalog catalog)))
  | drop {system : System} {id catalog entry rest cause}
      (htask : system.tasks id = some (.dropping catalog entry rest cause)) :
      Step system (some (.removed entry cause))
        { system.advance id (.recovering catalog rest) with
          database := acknowledge entry.sequence system.database }
  -- a call returns, with its result or with an error, or is cancelled
  | leave {system id} : Step system none (system.finish id)
  | restart {system} : Step system none
        { system with ready := !system.created, tasks := fun _ => none }

end AgentDx.Adxlet
