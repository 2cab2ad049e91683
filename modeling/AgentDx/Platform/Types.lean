import Mathlib

/-!
# Records of the control plane

What nodes report about an environment and what the Coordinator keeps of it.
Fields that the modelled functions only carry or compare as a whole are kept as
one text.
-/

namespace AgentDx.Platform

inductive Error where
  | invalid (message : String)
  | conflict
  | noCapacity
  | notFound
  | unavailable (message : String)
  deriving DecidableEq, Repr

abbrev Result (A : Type) := Except Error A

/-- `ensure` is the source's guard `if !condition { return Err(error) }`. -/
def ensure (condition : Bool) (error : Error) : Result Unit :=
  if condition then .ok () else .error error

@[simp]
lemma ensure_eq_ok : ensure condition error = .ok value ↔ condition = true := by
  unfold ensure
  split <;> simp_all

lemma bind_eq_ok {A B : Type} {first : Result A} {next : A → Result B} {value : B} :
    (first >>= next) = .ok value ↔ ∃ middle, first = .ok middle ∧ next middle = .ok value := by
  cases first with
  | error error | ok middle => simp [bind, Except.bind]

/-- `u64::checked_add`, with the error its callers report. -/
def checkedAdd (left right : ℕ) : Result ℕ :=
  if left + right < 2 ^ 64 then .ok (left + right) else .error .conflict

@[simp]
lemma checkedAdd_eq_ok :
    checkedAdd left right = .ok sum ↔ left + right < 2 ^ 64 ∧ left + right = sum := by
  unfold checkedAdd
  split <;> simp_all

inductive EnvironmentState where
  | pending | starting | running | pausing | paused | resuming | deleting
  | deleted | failed
  deriving DecidableEq, Repr

inductive DeviceKind where
  | gpu | npu
  deriving DecidableEq, Repr

structure DeviceAllocation where
  id : ℕ
  kind : DeviceKind
  model : String
  deriving DecidableEq, Repr

structure Assignment where
  environmentId : String
  nodeId : String
  shardId : ℕ
  generation : ℕ
  devices : List DeviceAllocation
  deriving DecidableEq, Repr

structure CheckpointArtifact where
  storage : String
  scope : String
  location : String
  sizeBytes : ℕ
  deriving DecidableEq, Repr

structure RuntimeIdentity where
  environmentId : String
  ownershipGeneration : ℕ
  runtimeId : String
  deriving DecidableEq, Repr

structure RestorePoint where
  origin : Option RuntimeIdentity
  id : String
  artifact : CheckpointArtifact
  expiresAtUnixSeconds : Option ℕ
  sourceRuntimeId : String
  deriving DecidableEq, Repr

def RestorePoint.expired (point : RestorePoint) (now : ℕ) : Bool :=
  point.expiresAtUnixSeconds.any (· ≤ now)

inductive LifecycleKind where
  | pause | resume | snapshot | network | reload
  deriving DecidableEq, Repr

structure CompletedOperation where
  id : String
  kind : LifecycleKind
  expectedRevision : ℕ
  deriving DecidableEq, Repr

structure Runtime where
  id : String
  ip : Option String
  deriving DecidableEq, Repr

structure EnvironmentSpec where
  id : String
  tenantId : String
  snapshotId : Option String
  /-- `lifecycle.restart`, by its `max_attempts`. -/
  restart : Option ℕ
  /-- `execution.network`, the only part a running environment may change. -/
  network : Option String
  /-- The volumes among `execution.mounts`. -/
  volumes : List String
  /-- The other fields. -/
  rest : String
  deriving DecidableEq, Repr

structure EnvironmentRecord where
  spec : EnvironmentSpec
  assignment : Assignment
  state : EnvironmentState
  revision : ℕ
  runtime : Runtime
  resourcesHeld : Bool
  checkpoint : Option RestorePoint
  snapshotSource : Option RestorePoint
  executionArtifacts : List CheckpointArtifact
  lastOperation : Option CompletedOperation
  restartAttempts : ℕ
  restartPending : Bool
  /-- `failure` and `observation`. -/
  notes : String
  deriving DecidableEq, Repr

/-! ## Runtime ids -/

/-- `str::parse::<u64>` on ASCII digits. -/
def parseDigits (digits : List Char) : Option ℕ :=
  let value := digits.foldl (fun total digit => 10 * total + (digit.toNat - 48)) 0
  if value < 2 ^ 64 then some value else none

def runtimeBase (environment : String) (generation : ℕ) : String :=
  environment ++ "-" ++ toString generation

def validRuntimeId (environment : String) (generation : ℕ) (runtimeId : String) : Bool :=
  let base := runtimeBase environment generation
  runtimeId = base || let start := (base ++ "-r").toList
    start.isPrefixOf runtimeId.toList && let digits := runtimeId.toList.drop start.length
      digits ≠ [] && digits.all Char.isDigit && (parseDigits digits).any (0 < ·)

end AgentDx.Platform
