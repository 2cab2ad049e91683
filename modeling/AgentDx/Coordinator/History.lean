import AgentDx.Lib.Run
import AgentDx.Coordinator.Stored

/-!
# The history of an environment

Whatever operations interleave on one environment, its assignment only moves to a
larger generation, and under one assignment its results only move forward.
-/

namespace AgentDx.Platform.Coordinator

open Transition

/-- An operation with its arguments and the outcomes of its lookups. -/
inductive Operation where
  | reserve (spec : EnvironmentSpec) (assignment : Assignment)
  | claim (spec : EnvironmentSpec) (assignment : Assignment)
  | replace (previous replacement : Assignment)
  | publish (record : EnvironmentRecord) (requireExisting : Bool)
  | abandon (assignment : Assignment)
  | authorize (request : EnvironmentRecord) (previous session : String)
      (nodeReady : Bool)
  | commit (result : EnvironmentRecord) (session : String) (stopped : List String)
  | invalidate (nodeId : String)
  | recover (previous replacement : Assignment) (now : ℕ) (targetReady : Bool)
  /-- `request_resume` and `reject_local_resume`. -/
  | resume (intent : Option ResumeIntent)

variable (specValid : EnvironmentSpec → Assignment → Bool)

def Operation.plan (read : Option StoredEnvironment) : Operation → Result Plan
  | .reserve spec assignment => reserveWithRequest specValid read spec assignment
  | .claim spec assignment => Coordinator.claim specValid read spec assignment
  | .replace previous replacement =>
    replaceRejected specValid read previous replacement
  | .publish record requireExisting =>
    publishSuccess specValid read record requireExisting
  | .abandon assignment => .ok (abandonInitial read assignment)
  | .authorize request previous session nodeReady =>
    authorizeVolumes specValid read request previous session nodeReady
  | .commit result session stopped =>
    commitReleasing specValid read result session stopped
  | .invalidate nodeId => invalidateNode specValid read nodeId
  | .recover previous replacement now targetReady =>
    reserveRecovery specValid read previous replacement now targetReady
  | .resume intent => .ok (read.elim .keep fun stored =>
    .write { stored with resume := intent })

/-- The script writes only over the record that the operation has read. -/
def Plan.script (current read : Option StoredEnvironment) : Plan → Option StoredEnvironment
  | .keep => current
  | .write next => if current = read then some next else current
  | .remove => if current = read then none else current

inductive Step : Option StoredEnvironment → Operation → Option StoredEnvironment → Prop where
  | script {operation : Operation} {plan} (current read)
      (hplan : operation.plan specValid read = .ok plan) :
      Step current operation (plan.script current read)
  /-- The operation fails, or is abandoned before its script. -/
  | idle (current operation) : Step current operation current

/-- An operation without others between its read and its script. -/
def Operation.execute (current : Option StoredEnvironment) (operation : Operation) :
    Option StoredEnvironment :=
  match operation.plan specValid current with
  | .ok plan => plan.script current current
  | .error _ => current

lemma step_execute (current operation) :
    Step specValid current operation (operation.execute specValid current) := by
  unfold Operation.execute
  split
  · exact .script _ _ ‹_›
  · exact .idle _ _

lemma run_execute (start operations) : Run (Step specValid) start operations
      (operations.foldl (Operation.execute specValid) start) := by
  induction operations using List.reverseRecOn with
  | nil => exact .refl start
  | append_singleton operations operation ih =>
    rw [List.foldl_append]
    exact ih.snoc (step_execute specValid _ operation)

variable {specValid} {old new stored next : StoredEnvironment}
  {previous r : EnvironmentRecord} {operation : Operation}

/-! ## Accepted results -/

/-- What a result that replaces another one brings. -/
structure Succeeds (previous r : EnvironmentRecord) : Prop where
  attempts : previous.restartAttempts ≤ r.restartAttempts
  once : r.restartAttempts ≤ previous.restartAttempts + 1
  restarts : r.restartAttempts ≠ previous.restartAttempts → r.runtime.id ≠ previous.runtime.id
  held : previous.resourcesHeld = false → r.resourcesHeld = true →
    r.runtime.id ≠ previous.runtime.id

lemma Succeeds.refl (r) : Succeeds r r :=
  ⟨le_rfl, Nat.le_succ _, fun h => absurd rfl h, by simp +contextual⟩

lemma restarting_fresh (hrestarting : restarting previous r = true) :
    r.restartAttempts = previous.restartAttempts + 1 ∧ r.runtime.id ≠ previous.runtime.id := by
  simp only [restarting, Bool.and_eq_true, decide_eq_true_eq] at hrestarting
  obtain ⟨⟨⟨⟨_, hat⟩, hrn⟩, _⟩, _⟩ := hrestarting
  exact ⟨hat.symm, hrn⟩

lemma resumeCompleted_fresh (hresumed : resumeCompleted old previous r = true) :
    r.runtime.id ≠ previous.runtime.id := by
  simp only [resumeCompleted, Bool.and_eq_true, decide_eq_true_eq] at hresumed
  exact hresumed.1.2

lemma nextResult_ok (hnext : nextResult old r = .ok changes) :
    old.assignment = r.assignment ∧ (old.invalidated = true → retiredResult old r = true) ∧
      ∀ previous, old.result = some previous →
        r = previous ∨ previous.revision < r.revision ∧ Succeeds previous r := by
  simp only [nextResult, bind_eq_ok, ensure_eq_ok, Bool.and_eq_true,
    Bool.or_eq_true, decide_eq_true_eq, Bool.not_eq_true'] at hnext
  obtain ⟨-, ⟨-, hass⟩, -, -, -, hrt, hrs⟩ := hnext
  refine ⟨hass, fun h => hrt.resolve_left (by simp [h]), ?_⟩
  intro previous hpr
  rw [hpr] at hrs
  by_cases hsm : previous = r
  · exact .inl hsm.symm
  · simp only [hsm, if_false, bind_eq_ok, ensure_eq_ok, Bool.and_eq_true,
      Bool.or_eq_true, decide_eq_true_eq, Bool.not_eq_true'] at hrs
    obtain ⟨-, ⟨⟨⟨⟨hle, hat⟩, hrv⟩, -⟩, hh⟩, -⟩ := hrs
    refine .inr ⟨hrv, hle, ?_, fun hne => ?_, fun hfr hhd => ?_⟩
    · rcases hat with heq | hr
      · omega
      · exact (restarting_fresh hr).1.le
    · exact (restarting_fresh (hat.resolve_left hne)).2
    · rcases hh with ((hpr | hrl) | hr) | hre
      · simp [hfr] at hpr
      · simp [hhd] at hrl
      · exact (restarting_fresh hr).2
      · exact resumeCompleted_fresh hre

/-! ## Steps -/

/-- An invalidation retires an execution that was authorized with a revision not
above that of the stored result. -/
def Overtaken (operation : Operation) (old : StoredEnvironment)
    (previous : EnvironmentRecord) : Prop :=
  (∃ nodeId, operation = .invalidate nodeId) ∧ ∃ execution, old.volumeExecution = some execution ∧
      execution.released = false ∧ execution.runtimeId ≠ previous.runtime.id ∧
      execution.revision ≤ previous.revision

/-- The record after an operation, against the record before it. -/
structure Forward (operation : Operation) (old new : StoredEnvironment) : Prop where
  assignment : new.assignment = old.assignment ∨
    old.assignment.generation < new.assignment.generation
  result : new.assignment = old.assignment →
    ∀ previous, old.result = some previous → ∃ r, new.result = some r ∧
      Succeeds previous r ∧ (r = previous ∨ previous.revision < r.revision ∨
        Overtaken operation old previous)
  held : ∀ previous r, old.result = some previous → new.result = some r →
    previous.resourcesHeld = false → r.resourcesHeld = true → r.runtime.id ≠ previous.runtime.id
  /-- A `Deleted` result is not stored: it removes the record. -/
  live : ∀ r, new.result = some r → r.state ≠ .deleted ∨ old.result = some r

lemma Forward.same (hplace : new.assignment = old.assignment)
    (hlive : ∀ r, new.result = some r → r.state ≠ .deleted)
    (hout : ∀ previous, old.result = some previous → ∃ r, new.result = some r ∧
      Succeeds previous r ∧ (r = previous ∨ previous.revision < r.revision ∨
        Overtaken operation old previous)) : Forward operation old new where
  assignment := .inl hplace
  result _ := hout
  held previous r hpr hr := by
    obtain ⟨found, hfn, hsc, -⟩ := hout previous hpr
    obtain rfl := Option.some.inj (hfn.symm.trans hr)
    exact hsc.held
  live r hr := .inl (hlive r hr)

lemma Forward.unchanged (hplace : new.assignment = old.assignment)
    (hout : new.result = old.result) : Forward operation old new where
  assignment := .inl hplace
  result _ previous h := ⟨previous, hout.trans h, .refl previous, .inl rfl⟩
  held previous r h hr := by
    obtain rfl := Option.some.inj (h.symm.trans (hout.symm.trans hr))
    exact (Succeeds.refl previous).held
  live r hr := .inr (hout.symm.trans hr)

lemma Forward.moved (hgen : old.assignment.generation < new.assignment.generation)
    (hout : ∀ r, new.result = some r → r.resourcesHeld = false ∧ r.state ≠ .deleted) :
    Forward operation old new where
  assignment := .inr hgen
  result heq := by
    rw [heq] at hgen
    exact absurd hgen (lt_irrefl _)
  held _ r _ hr _ h := by simp [(hout r hr).1] at h
  live r hr := .inl (hout r hr).2

/-- An invalidation finds the stored result, or an execution authorized after it. -/
lemma effectiveRecord_cases (hprev : old.result = some previous) :
    old.effectiveRecord = previous ∨ ∃ execution, old.volumeExecution = some execution ∧
        execution.released = false ∧ execution.runtimeId ≠ previous.runtime.id ∧
        old.effectiveRecord.revision = execution.revision - 1 ∧
        old.effectiveRecord.restartAttempts = previous.restartAttempts := by
  unfold StoredEnvironment.effectiveRecord
  rw [hprev]
  cases hex : old.volumeExecution with
  | none => exact .inl rfl
  | some execution =>
    by_cases hat : (!old.invalidated && !execution.released &&
        decide (previous.runtime.id ≠ execution.runtimeId)) = true
    · simp only [Bool.and_eq_true, Bool.not_eq_true', decide_eq_true_eq] at hat
      exact .inr ⟨execution, rfl, hat.1.2, hat.2.symm, by simp [hat], by simp [hat]⟩
    · exact .inl (if_neg hat)

lemma retired_not_deleted (stored : StoredEnvironment) (revision) :
    (stored.retired revision).state ≠ .deleted := by
  simp only [StoredEnvironment.retired]
  split
  · simp
  next hpa =>
    have hst : stored.effectiveRecord.state = .paused := by
      by_contra ho
      simp [ho] at hpa
    simp [hst]

lemma retired_succeeds (hprev : old.result = some previous) :
    Succeeds previous (old.retired (old.effectiveRecord.revision + 1)) ∧
      (previous.revision < old.effectiveRecord.revision + 1 ∨
        ∃ execution, old.volumeExecution = some execution ∧
          execution.released = false ∧ execution.runtimeId ≠ previous.runtime.id ∧
          execution.revision ≤ previous.revision) := by
  rcases effectiveRecord_cases hprev with heq | ⟨execution, hex, hrl, hrn, hrv, hat⟩
  · refine ⟨⟨?_, ?_, ?_, ?_⟩, .inl ?_⟩ <;> simp [StoredEnvironment.retired, heq]
  · refine ⟨⟨?_, ?_, ?_, ?_⟩, ?_⟩
    · simp [StoredEnvironment.retired, hat]
    · simp [StoredEnvironment.retired, hat]
    · simp [StoredEnvironment.retired, hat]
    · simp [StoredEnvironment.retired]
    · by_cases hlt : previous.revision < execution.revision
      · left
        omega
      · exact .inr ⟨execution, hex, hrl, hrn, not_lt.mp hlt⟩

lemma plan_forward (hplan : operation.plan specValid (some old) = .ok (.write new)) :
    Forward operation old new := by
  cases operation <;> simp only [Operation.plan] at hplan
  case reserve => cases (reserveWithRequest_write hplan).1
  case claim => cases (claim_write hplan).1
  case replace =>
      obtain ⟨_, ⟨⟩, -, hgn, rfl⟩ := replaceRejected_write hplan
      exact .moved hgn (by simp)
  case publish =>
      obtain ⟨hrn, hrs, hass, hol⟩ := publishSuccess_write hplan
      obtain ⟨hnn, -, heq⟩ := hol old rfl
      refine .same (hass.trans heq.symm) (fun r hr => ?_) fun previous hpr => ?_
      · obtain rfl := Option.some.inj (hrs.symm.trans hr)
        simp [hrn]
      · cases hnn.symm.trans hpr
  case abandon =>
      simp only [abandonInitial, Except.ok.injEq] at hplan
      split at hplan <;> cases hplan
  case authorize =>
      obtain ⟨_, _, ⟨⟩, -, rfl⟩ := authorizeVolumes_write hplan
      exact .unchanged rfl rfl
  case commit r session stopped =>
      obtain ⟨_, changes, ⟨⟩, hnx, hlv, rfl⟩ := commitReleasing_write hplan
      refine .same rfl (fun found hfn => ?_) fun previous hpr => ⟨r, rfl, ?_⟩
      · obtain rfl := Option.some.inj hfn
        exact hlv
      · rcases (nextResult_ok hnx).2.2 previous hpr with rfl | ⟨hrv, hsc⟩
        · exact ⟨.refl _, .inl rfl⟩
        · exact ⟨hsc, .inr (.inl hrv)⟩
  case invalidate nodeId =>
      obtain ⟨_, ⟨⟩, rfl⟩ := invalidateNode_write hplan
      refine .same rfl (fun found hfn => ?_) fun previous hpr => ⟨_, rfl, ?_⟩
      · obtain rfl := Option.some.inj hfn
        exact retired_not_deleted _ _
      · obtain ⟨hsc, hrv⟩ := retired_succeeds hpr
        exact ⟨hsc, .inr (hrv.imp_right fun h => ⟨⟨nodeId, rfl⟩, h⟩)⟩
  case recover =>
      obtain ⟨_, source, point, ⟨⟩, rfl, -, hgn, hrs⟩ := reserveRecovery_write hplan
      refine .moved hgn fun r hr => ?_
      obtain rfl := Option.some.inj (hrs.symm.trans hr)
      exact ⟨rfl, by simp [recoveredRecord]⟩
  case resume =>
      cases hplan
      exact .unchanged rfl rfl

lemma Step.forward (hstep : Step specValid (some old) operation (some new)) :
    Forward operation old new := by
  generalize hcr : some old = current at hstep
  generalize ha : some new = after at hstep
  cases hstep with
  | idle =>
    obtain rfl := Option.some.inj (ha.trans hcr.symm)
    exact .unchanged rfl rfl
  | @script _ plan _ read hpl =>
    subst hcr
    cases plan with
    | keep =>
      obtain rfl := Option.some.inj ha
      exact .unchanged rfl rfl
    | remove =>
      simp only [Plan.script] at ha
      split at ha
      · cases ha
      · obtain rfl := Option.some.inj ha
        exact .unchanged rfl rfl
    | write next =>
      simp only [Plan.script] at ha
      split at ha
      next hrd =>
        subst hrd
        obtain rfl := Option.some.inj ha
        exact plan_forward hpl
      · obtain rfl := Option.some.inj ha
        exact .unchanged rfl rfl

/-! ## Runs -/

/-- The stored result is not `Deleted`. -/
def Live (current : Option StoredEnvironment) : Prop :=
  ∀ stored r, current = some stored → stored.result = some r → r.state ≠ .deleted

lemma plan_created (hplan : operation.plan specValid none = .ok (.write new)) :
    Live (some new) := by
  intro stored r hst hr
  obtain rfl := Option.some.inj hst
  cases operation <;> simp only [Operation.plan] at hplan
  case reserve =>
      obtain ⟨-, rfl⟩ := reserveWithRequest_write hplan
      cases hr
  case claim =>
      obtain ⟨-, rfl⟩ := claim_write hplan
      cases hr
  case publish =>
      obtain ⟨hrn, hrs, -⟩ := publishSuccess_write hplan
      obtain rfl := Option.some.inj (hrs.symm.trans hr)
      simp [hrn]
  case replace =>
      obtain ⟨_, hrd, -⟩ := replaceRejected_write hplan
      cases hrd
  case authorize =>
      obtain ⟨_, _, hrd, -⟩ := authorizeVolumes_write hplan
      cases hrd
  case commit =>
      obtain ⟨_, _, hrd, -⟩ := commitReleasing_write hplan
      cases hrd
  case recover =>
      obtain ⟨_, _, _, hrd, -⟩ := reserveRecovery_write hplan
      cases hrd
  case abandon => cases hplan
  case invalidate => cases hplan
  case resume => cases hplan

lemma Step.live (hlive : Live current)
    (hstep : Step specValid current operation after) : Live after := by
  intro new r hnw hr
  subst hnw
  cases current with
  | some old =>
    rcases hstep.forward.live r hr with hsa | hol
    · exact hsa
    · exact hlive old r rfl hol
  | none =>
    generalize hcr : (none : Option StoredEnvironment) = current at hstep
    generalize ha : some new = after at hstep
    cases hstep with
    | idle => cases hcr.trans ha.symm
    | @script _ plan _ read hpl =>
      subst hcr
      cases plan with
      | keep => cases ha
      | remove =>
        simp only [Plan.script] at ha
        split at ha <;> cases ha
      | write next =>
        simp only [Plan.script] at ha
        split at ha
        next hrd =>
          subst hrd
          obtain rfl := Option.some.inj ha
          exact plan_created hpl new r rfl hr
        · cases ha

/-- On one environment, while its record exists: the assignment changes only to one
with a larger generation; under one assignment the result is replaced only by one
with a larger revision, unless an invalidation retires an execution that was
authorized with a revision not above it, and restarts are counted one by one,
each with a new runtime; a `Deleted` result is never stored; and released
resources are held again only by a new runtime. -/
theorem environment_history_monotone {operations}
    (hrun : Run (Step specValid) none operations (some old))
    (hstep : Step specValid (some old) operation (some new)) :
    (new.assignment = old.assignment ∨ old.assignment.generation < new.assignment.generation) ∧
      (new.assignment = old.assignment → ∀ previous, old.result = some previous →
        ∃ r, new.result = some r ∧
          (r = previous ∨ previous.revision < r.revision ∨ Overtaken operation old previous) ∧
          previous.restartAttempts ≤ r.restartAttempts ∧
          r.restartAttempts ≤ previous.restartAttempts + 1 ∧
          (r.restartAttempts ≠ previous.restartAttempts → r.runtime.id ≠ previous.runtime.id)) ∧
      (∀ previous, old.result = some previous → previous.state ≠ .deleted) ∧
      (∀ previous r, old.result = some previous → new.result = some r →
        previous.resourcesHeld = false → r.resourcesHeld = true →
        r.runtime.id ≠ previous.runtime.id) := by
  have hforward := hstep.forward
  have hlive : Live (some old) := hrun.invariant (fun hlive hstep => hstep.live hlive)
    (by simp [Live])
  refine ⟨hforward.assignment, fun heq previous hprev => ?_,
    fun previous => hlive old previous rfl, hforward.held⟩
  obtain ⟨r, hr, hsucceeds, hrev⟩ := hforward.result heq previous hprev
  exact ⟨r, hr, hrev, hsucceeds.attempts, hsucceeds.once, hsucceeds.restarts⟩

/-! ## An environment that is restarted and recovered -/

section Sample

def sampleSpec : EnvironmentSpec := ⟨"e", "t", none, some 1, none, [], ""⟩

def sampleAssignment (nodeId : String) (generation : ℕ) : Assignment :=
  ⟨"e", nodeId, 0, generation, []⟩

def sampleRecord (state : EnvironmentState) (revision attempts : ℕ)
    (runtimeId : String) : EnvironmentRecord where
  spec := sampleSpec
  assignment := sampleAssignment "a" 1
  state := state
  revision := revision
  runtime := ⟨runtimeId, some "10.0.0.1"⟩
  resourcesHeld := true
  checkpoint := some ⟨none, "p", ⟨"s3", "", "k", 1⟩, none, "e-1"⟩
  snapshotSource := none
  executionArtifacts := []
  lastOperation := none
  restartAttempts := attempts
  restartPending := state = .failed
  notes := ""

/-- The environment runs, fails, is restarted once, and loses its node. -/
def sampleOperations : List Operation :=
  [.reserve sampleSpec (sampleAssignment "a" 1), .commit (sampleRecord .running 1 0 "e-1") "" [],
    .commit (sampleRecord .failed 2 0 "e-1") "" [],
    .commit (sampleRecord .running 3 1 "e-1-r3") "" [], .invalidate "a"]

def sampleRecovery : Operation := .recover (sampleAssignment "a" 1) (sampleAssignment "b" 2) 0 true

/-- A recovery under a new assignment counts restarts from zero again. -/
theorem recovery_resets_restart_attempts : ∃ operations old operation new previous r,
      Run (Step fun _ _ => true) none operations (some old) ∧
        Step (fun _ _ => true) (some old) operation (some new) ∧
        old.result = some previous ∧ new.result = some r ∧
        r.restartAttempts < previous.restartAttempts := by
  have hstep := step_execute (fun _ _ => true)
    (sampleOperations.foldl (Operation.execute fun _ _ => true) none) sampleRecovery
  exact ⟨sampleOperations, _, sampleRecovery, _, _, _, run_execute _ none _, hstep,
    rfl, rfl, by decide⟩

/-- The history up to the loss of the node. -/
theorem invalidated_history_monotone :
    ∃ operations old new, Run (Step fun _ _ => true) none operations (some old) ∧
      Step (fun _ _ => true) (some old) (.invalidate "a") (some new) ∧
      (new.assignment = old.assignment ∨
        old.assignment.generation < new.assignment.generation) := by
  have hrun := run_execute (fun _ _ => true) none sampleOperations.dropLast
  have hstep := step_execute (fun _ _ => true)
    (sampleOperations.dropLast.foldl (Operation.execute fun _ _ => true) none)
    (.invalidate "a")
  exact ⟨sampleOperations.dropLast, _, _, hrun, hstep, (environment_history_monotone hrun hstep).1⟩

end Sample

end AgentDx.Platform.Coordinator
