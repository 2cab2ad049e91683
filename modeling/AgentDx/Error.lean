import Mathlib

/-!
# Coded errors

Every fallible operation of the service returns a coded error: a stable code
that callers branch on and a message for the operator.  The model keeps both,
and only the codes that some modelled function can raise.
-/

namespace AgentDx

/-- The stable error codes raised by the modelled functions. -/
inductive ErrorCode where
  | metaCatalogInvalidRequest
  | ioUnavailable
  | ioCapacity
  | clientArgumentInvalid
  | metaDfsConflict
  | metaDfsLeaseRetry
  | metaDfsNamespaceRetry
  | metaDfsGcBusy
  | metaDfsReferenceAdmissionExpired
  | nodeVfsNotFound
  | ioNotFound
  | ioNotDirectory
  | ioIsDirectory
  | ioDirectoryNotEmpty
  | ioAlreadyExists
  | ioNameTooLong
  | ioOperationNotPermitted
  | ioPermissionDenied
  | configInvalid
  | metaOwnerRootExists
  | metaOwnerRootBusy
  | metaOwnerHomeUnavailable
  | clientPermissionDenied
  | nodeVfsInvalid
  | nodeVfsUnavailable
  | nodeDfsStaleHandle
  deriving DecidableEq, Repr

/-- A coded error: the code a caller branches on and the operator's message. -/
structure Error where
  code : ErrorCode
  message : String
  deriving DecidableEq, Repr

/-- The result type of every fallible function of the service. -/
abbrev Result (A : Type) := Except Error A

/-- A contract violation, reported by the store and its log formats. -/
def invalidContract (message : String) : Error := ⟨.metaCatalogInvalidRequest, message⟩

/-- A backend that cannot serve the request. -/
def unavailable (message : String) : Error := ⟨.ioUnavailable, message⟩

/-- A violation of the operation log's format or position. -/
def invalidLog (message : String) : Error := ⟨.configInvalid, "Meta operation log: " ++ message⟩

/-- A capacity refusal. -/
def full (message : String) : Error := ⟨.ioCapacity, message⟩

/-- `ensure` is the source's guard `if !condition { return Err(error) }`. -/
def ensure (condition : Bool) (error : Error) : Result Unit :=
  if condition then .ok () else .error error

@[simp]
lemma ensure_eq_ok {condition : Bool} {error : Error} {value : Unit} :
    ensure condition error = .ok value ↔ condition = true := by
  unfold ensure
  split <;> simp_all

/-- `okOr` is `Option::ok_or`. -/
def okOr {A : Type} (value : Option A) (error : Error) : Result A :=
  match value with
  | some value => .ok value
  | none => .error error

@[simp]
lemma okOr_eq_ok {A : Type} {option : Option A} {error : Error} {value : A} :
    okOr option error = .ok value ↔ option = some value := by
  cases option <;> simp [okOr]

/-- A sequenced computation succeeds exactly when both of its halves do. -/
lemma Result.bind_eq_ok {A B : Type} {first : Result A} {next : A → Result B} {value : B} :
    (first >>= next) = .ok value ↔ ∃ middle, first = .ok middle ∧ next middle = .ok value := by
  cases first with
  | error error => simp [bind, Except.bind]
  | ok middle => simp [bind, Except.bind]

lemma Result.ok_bind {A B : Type} (value : A) (next : A → Result B) :
    ((.ok value : Result A) >>= next) = next value :=
  rfl

lemma ensure_bind {B : Type} {condition : Bool} {error : Error}
    {next : Unit → Result B} (hhas : condition = true) :
    (ensure condition error >>= next) = next () := by
  rw [hhas]
  rfl

@[simp]
lemma Result.pure_eq_ok {A : Type} {left right : A} :
    (pure left : Result A) = .ok right ↔ left = right := by
  simp [pure, Except.pure]

end AgentDx
