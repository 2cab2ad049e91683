import AgentDx.Lib.RefCount
import AgentDx.Store.Recovery

/-!
# Requests in flight

A mutation is admitted with the keys of all outcomes it may record.  While it is
in flight the registry counts its keys as active, and retention may not retire
them.  Keys picked for retirement are kept apart until their removal is settled,
and no mutation is admitted for them meanwhile.  A guard gives its keys back when
it is dropped.  Every key is charged once against a byte budget, and every
admission is charged for its own list.
-/

namespace AgentDx.Store

open Dfs Std Word RefCount

/-! ## Mutations and the keys they protect -/

def protectedKeyBytes : ℕ := 4 * 1024 * 1024

/-- The keys a mutation may record an outcome for.  Its own request key is
handed in with some spare capacity. -/
def Mutation.requests (spare : ℕ) : Mutation → List (Owned RequestKey)
  | .registerNode request _ => [⟨request, spare⟩]
  | .transaction txn =>
    ⟨txn.request, spare⟩ :: txn.mutations.filterMap fun
      | .recordRequestOutcome owned =>
        some ⟨owned.outcome.request, owned.keySpare⟩
      | _ => none

section Registry

variable [footprint : Footprint]

def protectionCharge (key : Owned RequestKey) : Result ℕ :=
  charge (footprint.sizeRequestKey + requestHeap key.value + key.spare + 1024)

/-- Adds one key to the protected ones, unless it is there. -/
def protectKey (limit : ℕ) (acc : ExtTreeSet RequestKey × ℕ)
    (key : Owned RequestKey) : Result (ExtTreeSet RequestKey × ℕ) :=
  if acc.1.contains key.value then
    .ok acc
  else do
    let held ← protectionCharge key
    let next ← okOr (checkedAdd acc.2 held) (unavailable "protected request bytes overflow")
    ensure (decide (acc.1.size ≠ limit ∧ next ≤ protectedKeyBytes))
      (unavailable "prepared request protection capacity exhausted")
    return (acc.1.insert key.value, next)

def Mutation.protect (operation : Mutation) (spare limit : ℕ) :
    Result (ExtTreeSet RequestKey × ℕ) :=
  (operation.requests spare).foldlM (protectKey limit) (∅, 0)

/-! ## The registry -/

structure InFlightState where
  active : ExtTreeMap RequestKey ℕ
  retiring : ExtTreeSet RequestKey
  bytes : ℕ
  failed : Bool

def InFlightState.default : InFlightState := ⟨∅, ∅, 0, false⟩

structure InFlightGuard where
  keys : List RequestKey
  retirement : Bool
  holderBytes : ℕ

/-- The charge of a registered key: registry, queued holder, selection snapshot
and retirement holder. -/
def inFlightCharge (key : RequestKey) : Result ℕ := do
  let held ← protectionCharge (.exact key)
  okOr (checkedMul held 4) (unavailable "in-flight identity charge overflow")

/-- The number of keys an admission registers and the bytes it is charged. -/
def InFlightState.extraCharge (state : InFlightState) :
    List RequestKey → (count extra : ℕ) → Result (ℕ × ℕ)
  | [], count, extra => .ok (count, extra)
  | key :: keys, count, extra => do
      ensure (!state.retiring.contains key)
        (unavailable "request outcome retirement in progress; retry admission")
      if state.active.contains key then
        extraCharge state keys count extra
      else do
        let held ← inFlightCharge key
        extraCharge state keys (count + 1) (extra + held)

def InFlightState.admits (state : InFlightState) (limit count extra : ℕ) : Bool :=
  decide (state.active.size + state.retiring.size + count ≤ limit) &&
    (checkedAdd state.bytes extra).any fun bytes =>
      decide (bytes ≤ protectedKeyBytes)

def InFlightState.admission (state : InFlightState) (limit : ℕ)
    (operation : Mutation) (spare : ℕ) : Result (InFlightState × InFlightGuard) := do
  let (keys, _) ← operation.protect spare limit
  let holderBytes := 128 + keys.size * 32
  ensure (!state.failed) (unavailable "in-flight identity invariant failed")
  let (count, extra) ← state.extraCharge keys.toList 0 holderBytes
  ensure (state.admits limit count extra)
    (unavailable "in-flight request protection capacity exhausted")
  return ({ state with
    bytes := state.bytes + extra
    active := keys.toList.foldl retain state.active }, ⟨keys.toList, false, holderBytes⟩)

/-! ## Retirement -/

def retirementCharge (requests : List RemovedRequest) : Result ℕ :=
  requests.foldlM (fun sum entry => do
    let held ← inFlightCharge entry.key
    okOr (checkedAdd sum held) (unavailable "retirement identity charge overflow")) 0

/-- Registers the keys of a selection as retiring. -/
def InFlightState.retire (state : InFlightState)
    (requests : List RemovedRequest) (extra : ℕ) : InFlightState × InFlightGuard :=
  let keys := requests.map RemovedRequest.key
  ({ state with
    retiring := keys.foldl ExtTreeSet.insert state.retiring
    bytes := state.bytes + extra }, ⟨keys, true, 0⟩)

/-- Selects with ever smaller batches until the keys fit the byte budget. -/
def InFlightState.selectRetirement (state : InFlightState) (current : State)
    (now : ℕ) (isProtected : Finset RequestKey) (limits : Limits) :
    Result (Option (InFlightState × State × Delta × InFlightGuard)) :=
  match current.prepareHistory now limits isProtected with
  | .error error => .error error
  | .ok none => .ok none
  | .ok (some (next, delta)) =>
    match retirementCharge delta.requests with
    | .error error => .error error
    | .ok extra =>
      if (checkedAdd state.bytes extra).any fun bytes =>
          decide (bytes ≤ protectedKeyBytes) then
        let (state, guarded) := state.retire delta.requests extra
        .ok (some (state, next, delta, guarded))
      else if limits.cleanupItems ≤ 1 then
        .ok none
      else
        state.selectRetirement current now isProtected
          { limits with cleanupItems := limits.cleanupItems / 2 }
termination_by limits.cleanupItems
decreasing_by
  omega

def InFlightState.protectedKeys (state : InFlightState) : Finset RequestKey :=
  (state.active.keys ++ state.retiring.toList).toFinset

def InFlightState.prepareHistory (state : InFlightState) (limit : ℕ)
    (current : State) (now : ℕ) (limits : Limits) :
    Result (Option (InFlightState × State × Delta × InFlightGuard)) := do
  ensure (!state.failed) (unavailable "in-flight identity invariant failed")
  let slots := limit - (state.active.size + state.retiring.size)
  if slots = 0 then
    return none
  else
    state.selectRetirement current now state.protectedKeys
      { limits with cleanupItems := min limits.cleanupItems slots }

/-! ## Guards -/

/-- Takes bytes off the total; a total that is too small marks the registry. -/
def InFlightState.discharge (state : InFlightState) (bytes : Option ℕ) : InFlightState :=
  match bytes.bind (checkedSub state.bytes) with
  | some bytes => { state with bytes := bytes }
  | none => { state with failed := true }

def InFlightState.releaseKey (retirement : Bool) (state : InFlightState)
    (key : RequestKey) : InFlightState :=
  if retirement then
    let next := { state with retiring := state.retiring.erase key }
    if state.retiring.contains key then
      next.discharge (inFlightCharge key).toOption
    else
      next
  else
    let next := { state with active := (release state.active key).1 }
    if (release state.active key).2 then
      next.discharge (inFlightCharge key).toOption
    else
      next

/-- `Drop` of a guard. -/
def InFlightState.drop (state : InFlightState) (guarded : InFlightGuard) : InFlightState :=
  guarded.keys.foldl (InFlightState.releaseKey guarded.retirement)
    (state.discharge (some guarded.holderBytes))

/-! ## The system -/

/-- An admitted mutation with its guard. -/
structure Pending where
  identity : InFlightGuard
  operation : Mutation
  spare : ℕ

/-- The registry and the guards that were handed out and not yet dropped. -/
structure InFlight where
  state : InFlightState
  pending : List Pending
  retirements : List InFlightGuard

def InFlight.new : InFlight := ⟨.default, [], []⟩

/-- The keys held by the admitted mutations. -/
def InFlight.heldKeys (world : InFlight) : List RequestKey :=
  world.pending.flatMap fun pending => pending.identity.keys

/-- The keys held by the retirements. -/
def InFlight.retiredKeys (world : InFlight) : List RequestKey :=
  world.retirements.flatMap InFlightGuard.keys

/-- The bytes charged for the guards of the admitted mutations. -/
def InFlight.holderBytes (world : InFlight) : ℕ :=
  (world.pending.map fun pending => pending.identity.holderBytes).sum

inductive InFlightEvent where
  | admitted (operation : Mutation)
  | retired (delta : Delta)
  | settled (pending : Pending)
  | unprotected (retirement : InFlightGuard)
  | refused

inductive InFlightStep (limit : ℕ) : InFlight → InFlightEvent → InFlight → Prop where
  | admitted {world : InFlight} {operation spare state guarded}
      (hadmission : world.state.admission limit operation spare = .ok (state, guarded)) :
      InFlightStep limit world (.admitted operation) { world with
        state := state
        pending := ⟨guarded, operation, spare⟩ :: world.pending }
  | refusedAdmission {world : InFlight} {operation spare error}
      (hadmission : world.state.admission limit operation spare = .error error) :
      InFlightStep limit world .refused world
  | retired {world : InFlight} {current next now limits state delta guarded}
      (hprepare : world.state.prepareHistory limit current now limits =
        .ok (some (state, next, delta, guarded))) :
      InFlightStep limit world (.retired delta) { world with
        state := state
        retirements := guarded :: world.retirements }
  | refusedRetirement {world : InFlight} {current now limits} (hprepare : ∀ selected,
        world.state.prepareHistory limit current now limits ≠ .ok (some selected)) :
      InFlightStep limit world .refused world
  | settled {state before after pending retirements} :
      InFlightStep limit ⟨state, before ++ pending :: after, retirements⟩
        (.settled pending)
        ⟨state.drop pending.identity, before ++ after, retirements⟩
  | unprotected {state pending before after retirement} :
      InFlightStep limit ⟨state, pending, before ++ retirement :: after⟩
        (.unprotected retirement)
        ⟨state.drop retirement, pending, before ++ after⟩

end Registry

end AgentDx.Store
