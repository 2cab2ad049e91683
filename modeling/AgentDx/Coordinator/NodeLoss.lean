import AgentDx.Lib.Table
import AgentDx.Coordinator.History

/-!
# Losing a node

An invalidation scans all records before its one script.  Assignments made in
between are excluded by the node's ownership counter, which the script compares,
and later ones by the node's session token, which it removes.
-/

namespace AgentDx.Platform.Coordinator

open Transition Table Function

/-- What the scripts see: the records, and for each node its session token and the
counter of the assignments written for it. -/
structure Tables where
  environments : String → Option StoredEnvironment
  session : String → Option String
  ownership : String → ℕ

structure Store extends Tables where
  /-- Invalidations under way: the node, and what they have read. -/
  scans : ℕ → Option (String × Tables)

def Store.empty : Store := ⟨⟨fun _ => none, fun _ => none, fun _ => 0⟩, fun _ => none⟩

inductive Label where
  /-- An operation on one environment, with the node session its script compares. -/
  | operation (id : String) (operation : Operation) (session : String)
  | scan (nodeId : String)
  | invalidated (nodeId : String)
  | sessionWritten (nodeId session : String)
  | sessionRemoved (nodeId : String)

/-- What the script of an operation compares besides the record: a claim and a
reservation with volumes the session token of the node, a publication too if it
was given a session. -/
def Operation.fenced (tables : Tables) (session : String) (next : StoredEnvironment) :
    Operation → Prop
  | .reserve .. | .replace .. => next.spec.volumes ≠ [] ∧
      tables.session next.assignment.nodeId = some session
  | .claim .. => tables.session next.assignment.nodeId = some session
  | .publish .. => session = "" ∨ tables.session next.assignment.nodeId = some session
  | _ => True

variable (specValid : EnvironmentSpec → Assignment → Bool)

inductive StoreStep : Store → Label → Store → Prop where
  | write {store : Store} {operation : Operation} {next} (id session)
      (hplan : operation.plan specValid (store.environments id) = .ok (.write next))
      (hfenced : operation.fenced store.toTables session next)
      (hoperation : ∀ nodeId, operation ≠ .invalidate nodeId) :
      StoreStep store (.operation id operation session) { store with
        environments := update store.environments id (some next)
        ownership := update store.ownership next.assignment.nodeId
          (store.ownership next.assignment.nodeId + 1) }
  | remove {store : Store} {operation : Operation} (id session)
      (hplan : operation.plan specValid (store.environments id) = .ok .remove) :
      StoreStep store (.operation id operation session) { store with
        environments := update store.environments id none }
  | scan {store} (task nodeId) : StoreStep store (.scan nodeId) { store with
        scans := update store.scans task (some (nodeId, store.toTables)) }
  | invalidate {store : Store} {task nodeId read} {plans : String → Plan}
      (hscan : store.scans task = some (nodeId, read))
      (hplans : ∀ id, invalidateNode specValid (read.environments id) nodeId = .ok (plans id))
      (hexpected : ∀ id next, plans id = .write next → store.environments id = read.environments id)
      (hownership : store.ownership nodeId = read.ownership nodeId) :
      StoreStep store (.invalidated nodeId) { store with
        environments := fun id =>
          (plans id).script (store.environments id) (store.environments id)
        session := update store.session nodeId none
        scans := update store.scans task none }
  | sessionWritten {store} (nodeId session) :
      StoreStep store (.sessionWritten nodeId session) { store with
        session := update store.session nodeId (some session) }
  | sessionRemoved {store} (nodeId) : StoreStep store (.sessionRemoved nodeId) { store with
        session := update store.session nodeId none }

variable {specValid} {store after : Store} {label : Label} {nodeId : String}
  {old new : StoredEnvironment}

/-! ## Scans -/

lemma invalidateNode_keep (hplan : invalidateNode specValid (some old) nodeId = .ok plan)
    (hlive : ∀ r, old.result = some r → r.state ≠ .deleted)
    (hnode : old.assignment.nodeId = nodeId) (hok : old.invalidated = false) :
    ∃ next, plan = .write next := by
  have hout : old.result.any (·.state = .deleted) = false := by
    cases hr : old.result with
    | none => rfl
    | some r => simp [hlive r hr]
  simp only [invalidateNode, hnode, hok, hout, ne_eq, not_true, decide_false,
    Bool.or_self, Bool.false_eq_true, if_false, bind_eq_ok] at hplan
  obtain ⟨_, -, -, -, hset⟩ := hplan
  exact ⟨_, (Except.ok.inj hset).symm⟩

structure Sound (store : Store) : Prop where
  live : ∀ id, Live (store.environments id)
  counted : ∀ task nodeId read, store.scans task = some (nodeId, read) →
    read.ownership nodeId ≤ store.ownership nodeId
  /-- While the counter of the node is the one that was read, the records that an
  invalidation has to write are those it has read. -/
  scanned : ∀ task nodeId read, store.scans task = some (nodeId, read) →
    store.ownership nodeId = read.ownership nodeId →
    ∀ id stored, store.environments id = some stored →
      stored.assignment.nodeId = nodeId → stored.invalidated = false →
      read.environments id = some stored

lemma Sound.empty : Sound .empty where
  live id stored r hput := by cases hput
  counted task nodeId read hscan := by cases hscan
  scanned task nodeId read hscan := by cases hscan

lemma Sound.write (hinv : Sound store) {id next} (hlive : Live (some next)) : Sound { store with
      environments := update store.environments id (some next)
      ownership := update store.ownership next.assignment.nodeId
        (store.ownership next.assignment.nodeId + 1) } where
  live other := by
    by_cases hid : other = id
    · subst hid
      simpa using hlive
    · simpa [hid] using hinv.live other
  counted task nodeId read hscan := by
    have hle := hinv.counted task nodeId read hscan
    by_cases hnode : nodeId = next.assignment.nodeId
    · subst hnode
      simp only [update_self]
      omega
    · simpa [hnode] using hle
  scanned task nodeId read hscan hnum other stored hput hnode hok := by
    have hle := hinv.counted task nodeId read hscan
    by_cases heq : nodeId = next.assignment.nodeId
    · subst heq
      simp only [update_self] at hnum
      omega
    · by_cases hid : other = id
      · subst hid
        simp only [update_self, Option.some.injEq] at hput
        rw [hput] at heq
        exact absurd hnode.symm heq
      · simp only [update_of_ne hid, update_of_ne heq] at hput hnum
        exact hinv.scanned task nodeId read hscan hnum other stored hput hnode hok

lemma Sound.frame (hinv : Sound store) {environments}
    (henvironments : ∀ id stored, environments id = some stored →
      store.environments id = some stored ∨ stored.invalidated = true ∧ Live (some stored))
    (hscans : ∀ task scan, scans task = some scan → store.scans task = some scan ∨
      scan.2 = store.toTables) : Sound ⟨⟨environments, session, store.ownership⟩, scans⟩ where
  live id stored r hput hr := by
    rcases henvironments id stored hput with hold | ⟨-, hlive⟩
    · exact hinv.live id stored r hold hr
    · exact hlive stored r rfl hr
  counted task nodeId read hscan := by
    rcases hscans task _ hscan with hold | rfl
    · exact hinv.counted task nodeId read hold
    · exact le_rfl
  scanned task nodeId read hscan hnum id stored hput hnode hok := by
    have hold : store.environments id = some stored := by
      rcases henvironments id stored hput with hold | ⟨hbad, -⟩
      · exact hold
      · rw [hok] at hbad
        cases hbad
    rcases hscans task _ hscan with hscan | rfl
    · exact hinv.scanned task nodeId read hscan hnum id stored hold hnode hok
    · exact hold

lemma Sound.step (hinv : Sound store) (hstep : StoreStep specValid store label after) :
    Sound after := by
  cases hstep with
  | @write operation next id session hplan hsafe hop =>
    refine hinv.write ?_
    have hlive : Live (Plan.script (store.environments id) (store.environments id)
        (.write next)) := (Step.script _ _ hplan).live (hinv.live id)
    simpa [Plan.script] using hlive
  | remove id session hplan =>
    exact hinv.frame (fun other stored hput => .inl (of_update_none hput)) fun task scan => .inl
  | scan task nodeId =>
    exact hinv.frame (fun id stored => .inl) (forall_update (fun other scan => .inl) (.inr rfl))
  | @invalidate task nodeId read plans hscan hplans hwant hownership =>
    refine hinv.frame (fun id stored hput => ?_) fun other scan hscan => ?_
    · cases hplan : plans id with
      | keep => exact .inl (by simpa [hplan, Plan.script] using hput)
      | remove => simp [hplan, Plan.script] at hput
      | write next =>
        have hset := (hplans id).trans (congrArg Except.ok hplan)
        obtain ⟨old, -, hnext⟩ := invalidateNode_write hset
        obtain rfl : next = stored := by simpa [hplan, Plan.script] using hput
        refine .inr ⟨by simp [hnext], fun found r hget hr => ?_⟩
        obtain rfl := Option.some.inj hget
        rw [hnext] at hr
        obtain rfl := Option.some.inj hr
        exact retired_not_deleted _ _
    · exact .inl (of_update_none hscan)
  | sessionWritten nodeId session | sessionRemoved nodeId =>
    exact hinv.frame (fun _ _ => .inl) fun _ _ => .inl

/-! ## After an invalidation -/

/-- The node has no session token and no environment that is not invalidated. -/
structure Lost (nodeId : String) (store : Store) : Prop where
  session : store.session nodeId = none
  invalidated : ∀ id stored, store.environments id = some stored →
    stored.assignment.nodeId = nodeId → stored.invalidated = true

lemma Sound.lost (hinv : Sound store)
    (hstep : StoreStep specValid store (.invalidated nodeId) after) : Lost nodeId after := by
  cases hstep with
  | @invalidate task _ read plans hscan hplans hwant hownership =>
    refine ⟨by simp, fun id stored hput hnode => ?_⟩
    by_contra hok
    have hok : stored.invalidated = false := by simpa using hok
    cases hplan : plans id with
    | keep =>
      have hput : store.environments id = some stored := by
        simpa [hplan, Plan.script] using hput
      have hread := hinv.scanned task nodeId read hscan hownership id stored hput hnode hok
      have hkeep := hplans id
      rw [hread, hplan] at hkeep
      obtain ⟨next, hset⟩ :=
        invalidateNode_keep hkeep (fun r => hinv.live id stored r hput) hnode hok
      cases hset
    | remove => simp [hplan, Plan.script] at hput
    | write next =>
      have hset := (hplans id).trans (congrArg Except.ok hplan)
      obtain ⟨old, -, hnext⟩ := invalidateNode_write hset
      obtain rfl : next = stored := by simpa [hplan, Plan.script] using hput
      simp [hnext] at hok

/-- The node's session token is not written, no recovery is targeted at the node,
and publications name a session. -/
def Label.Excludes (nodeId : String) : Label → Prop
  | .operation _ (.publish ..) session => session ≠ ""
  | .operation _ (.recover _ replacement ..) _ => replacement.nodeId ≠ nodeId
  | .sessionWritten written _ => written ≠ nodeId
  | _ => True

lemma Lost.write (hlost : Lost nodeId store) {operation : Operation} {id session}
    (hplan : operation.plan specValid (store.environments id) = .ok (.write new))
    (hsafe : operation.fenced store.toTables session new)
    (htag : (Label.operation id operation session).Excludes nodeId)
    (hnode : new.assignment.nodeId = nodeId) : new.invalidated = true := by
  have htoken : store.session new.assignment.nodeId ≠ some session := by
    rw [hnode, hlost.session]
    simp
  cases operation <;> simp only [Operation.plan] at hplan
  case reserve => exact absurd hsafe.2 htoken
  case claim => exact absurd hsafe htoken
  case replace => exact absurd hsafe.2 htoken
  case publish => exact absurd (hsafe.resolve_left htag) htoken
  case abandon =>
      simp only [abandonInitial, Except.ok.injEq] at hplan
      split at hplan
      · cases hplan
      · split at hplan <;> cases hplan
  case authorize =>
      obtain ⟨old, _, hread, -, rfl⟩ := authorizeVolumes_write hplan
      exact hlost.invalidated id old hread hnode
  case commit =>
      obtain ⟨old, _, hread, -, -, rfl⟩ := commitReleasing_write hplan
      exact hlost.invalidated id old hread hnode
  case invalidate =>
      obtain ⟨old, -, rfl⟩ := invalidateNode_write hplan
      rfl
  case recover =>
      obtain ⟨_, _, _, -, rfl, -⟩ := reserveRecovery_write hplan
      exact absurd hnode htag
  case resume =>
      cases hread : store.environments id with
      | none =>
        rw [hread] at hplan
        cases hplan
      | some old =>
        rw [hread] at hplan
        cases hplan
        exact hlost.invalidated id old hread hnode

lemma Lost.step (hlost : Lost nodeId store) (hstep : StoreStep specValid store label after)
    (htag : label.Excludes nodeId) : Lost nodeId after := by
  cases hstep with
  | @write operation next id session hplan hsafe hop =>
    exact ⟨hlost.session, forall_update hlost.invalidated (hlost.write hplan hsafe htag)⟩
  | remove id session hplan =>
    exact ⟨hlost.session, fun other stored hput =>
      hlost.invalidated other stored (of_update_none hput)⟩
  | scan => exact ⟨hlost.session, hlost.invalidated⟩
  | @invalidate task other read plans hscan hplans hwant hownership =>
    refine ⟨?_, fun id stored hput hnode => ?_⟩
    · by_cases heq : nodeId = other <;> simp [update_apply, hlost.session]
    · cases hplan : plans id with
      | keep =>
        have hput : store.environments id = some stored := by
          simpa [hplan, Plan.script] using hput
        exact hlost.invalidated id stored hput hnode
      | remove => simp [hplan, Plan.script] at hput
      | write next =>
        obtain ⟨old, -, hnext⟩ :=
          invalidateNode_write ((hplans id).trans (congrArg Except.ok hplan))
        obtain rfl : next = stored := by simpa [hplan, Plan.script] using hput
        simp [hnext]
  | sessionWritten written session =>
    refine ⟨?_, hlost.invalidated⟩
    have hne : nodeId ≠ written := Ne.symm htag
    simpa [hne] using hlost.session
  | sessionRemoved => exact ⟨by simp [update_apply, hlost.session], hlost.invalidated⟩

/-! ## Invalidated environments -/

/-- The result neither runs nor holds anything. -/
def Retired (r : EnvironmentRecord) : Prop :=
  r.resourcesHeld = false ∧ r.state ≠ .running ∧ r.restartPending = false ∧ r.runtime.ip = none

lemma retiredResult_retired (hret : retiredResult old r = true) : Retired r := by
  simp only [retiredResult, Bool.and_eq_true, Bool.or_eq_true, decide_eq_true_eq,
    Bool.not_eq_true', Option.isNone_iff_eq_none] at hret
  obtain ⟨⟨⟨⟨⟨hstate, hheld⟩, hpend⟩, hip⟩, -⟩, -⟩ := hret
  exact ⟨hheld, by rcases hstate with (h | h) | h <;> simp [h], hpend, hip⟩

/-- A result for an invalidated environment is accepted only if it is retired. -/
lemma commit_retired (hbad : old.invalidated = true)
    (hplan : commitReleasing specValid (some old) r session stopped = .ok plan) : Retired r := by
  simp only [commitReleasing, bind_eq_ok] at hplan
  obtain ⟨-, -, changes, hnext, -⟩ := hplan
  exact retiredResult_retired ((nextResult_ok hnext).2.1 hbad)

/-- An invalidated environment stays so until it is recovered on another node. -/
lemma plan_invalidated {operation : Operation} (hbad : old.invalidated = true)
    (hplan : operation.plan specValid (some old) = .ok (.write new)) :
    new.invalidated = true ∧ new.assignment = old.assignment ∨ (∃ previous replacement now ready,
        operation = .recover previous replacement now ready) ∧
        new.assignment.nodeId ≠ old.assignment.nodeId ∧
        old.assignment.generation < new.assignment.generation := by
  cases operation <;> simp only [Operation.plan] at hplan
  case reserve => cases (reserveWithRequest_write hplan).1
  case claim => cases (claim_write hplan).1
  case replace =>
      obtain ⟨_, ⟨⟩, hok, -⟩ := replaceRejected_write hplan
      simp [hbad] at hok
  case publish =>
      obtain ⟨-, -, -, hold⟩ := publishSuccess_write hplan
      simp [hbad] at hold
  case abandon =>
      simp only [abandonInitial, Except.ok.injEq] at hplan
      split at hplan <;> cases hplan
  case authorize =>
      obtain ⟨_, _, ⟨⟩, hok, -⟩ := authorizeVolumes_write hplan
      simp [hbad] at hok
  case commit =>
      obtain ⟨_, _, ⟨⟩, -, -, rfl⟩ := commitReleasing_write hplan
      exact .inl ⟨hbad, rfl⟩
  case invalidate =>
      obtain ⟨_, ⟨⟩, rfl⟩ := invalidateNode_write hplan
      exact .inl ⟨rfl, rfl⟩
  case recover previous replacement now ready =>
      obtain ⟨_, _, _, ⟨⟩, rfl, hnode, hgen, -⟩ := reserveRecovery_write hplan
      exact .inr ⟨⟨_, _, _, _, rfl⟩, hnode.symm, hgen⟩
  case resume =>
      cases hplan
      exact .inl ⟨hbad, rfl⟩

lemma StoreStep.invalidated (hstep : StoreStep specValid store label after) {id : String}
    (hold : store.environments id = some old) (hbad : old.invalidated = true)
    (hnew : after.environments id = some new) :
    new.invalidated = true ∧ new.assignment = old.assignment ∨
      (∃ previous replacement now ready session,
        label = .operation id (.recover previous replacement now ready) session) ∧
        new.assignment.nodeId ≠ old.assignment.nodeId ∧
        old.assignment.generation < new.assignment.generation := by
  have heq (hkept : some old = some new) :
      new.invalidated = true ∧ new.assignment = old.assignment := by
    obtain rfl := Option.some.inj hkept
    exact ⟨hbad, rfl⟩
  cases hstep with
  | @write operation next other session hplan hsafe hop =>
    by_cases hid : id = other
    · subst hid
      obtain rfl : next = new := by simpa using hnew
      rw [hold] at hplan
      rcases plan_invalidated hbad hplan with hkept |
        ⟨⟨previous, replacement, now, ready, rfl⟩, hmoved⟩
      · exact .inl hkept
      · exact .inr ⟨⟨previous, replacement, now, ready, session, rfl⟩, hmoved⟩
    · exact .inl (heq (by simpa [hid, hold] using hnew))
  | remove other session hplan => exact .inl (heq (hold.symm.trans (of_update_none hnew)))
  | @invalidate task nodeId read plans hscan hplans hwant hownership =>
    cases hplan : plans id with
    | keep => exact .inl (heq (by simpa [hplan, Plan.script, hold] using hnew))
    | remove => simp [hplan, Plan.script] at hnew
    | write next =>
      have hset := (hplans id).trans (congrArg Except.ok hplan)
      rw [← hwant id next hplan, hold] at hset
      obtain rfl : next = new := by simpa [hplan, Plan.script] using hnew
      obtain ⟨_, ⟨⟩, rfl⟩ := invalidateNode_write hset
      exact .inl ⟨rfl, rfl⟩
  | scan | sessionWritten | sessionRemoved => exact .inl (heq (hold.symm.trans hnew))

/-- From the commit of an invalidation until the node's session token is written
again, every environment of the node is invalidated, if no recovery is targeted at
it and publications name a session.  Of an invalidated environment only retired
results are accepted, and it stays invalidated until its record is removed or
moved to another node under a larger generation. -/
theorem lost_node_stays_fenced {before final earlier later}
    (hpast : Run (StoreStep specValid) .empty earlier before)
    (hdone : StoreStep specValid before (.invalidated nodeId) after)
    (hnext : Run (StoreStep specValid) after later final) :
    ((∀ label ∈ later, label.Excludes nodeId) → ∀ id stored, final.environments id = some stored →
        stored.assignment.nodeId = nodeId → stored.invalidated = true) ∧
    (∀ id old, final.environments id = some old → old.invalidated = true →
      (∀ r session stopped plan, commitReleasing specValid (some old) r session stopped = .ok plan →
        Retired r) ∧
      ∀ label next new, StoreStep specValid final label next → next.environments id = some new →
        new.invalidated = true ∧ new.assignment = old.assignment ∨
          (∃ previous replacement now ready session,
            label = .operation id (.recover previous replacement now ready) session) ∧
            new.assignment.nodeId ≠ old.assignment.nodeId ∧
            old.assignment.generation < new.assignment.generation) := by
  have hinv : Sound before := hpast.invariant (fun h hstep => h.step hstep) .empty
  have hlost : (∀ label ∈ later, label.Excludes nodeId) → Lost nodeId final := by
    induction hnext with
    | refl => exact fun _ => hinv.lost hdone
    | snoc _ last ih =>
      intro htags
      exact (ih fun label htag => htags label (by simp [htag])).step last
        (htags _ (by simp))
  refine ⟨fun htags => (hlost htags).invalidated, fun id old hold hbad => ⟨?_, ?_⟩⟩
  · exact fun r session stopped plan hplan => commit_retired hbad hplan
  · exact fun label next new hstep hnew => hstep.invalidated hold hbad hnew

section Sample

def samplePublication : Operation := .publish (sampleRecord .running 1 0 "e-1") false

def sampleStored : StoredEnvironment :=
  { StoredEnvironment.initial sampleSpec (sampleAssignment "a" 1) with
    result := some (sampleRecord .running 1 0 "e-1") }

lemma step_samplePublication (hfree : store.environments "e" = none) :
    StoreStep (fun _ _ => true) store (.operation "e" samplePublication "")
      { store with
        environments := update store.environments "e" (some sampleStored)
        ownership := update store.ownership "a" (store.ownership "a" + 1) } := by
  refine @StoreStep.write _ store samplePublication sampleStored "e" "" ?_ (.inl rfl)
    (by simp [samplePublication])
  rw [hfree]
  rfl

def sampleScanned (store : Store) : Store :=
  { store with scans := update store.scans 0 (some ("a", store.toTables)) }

/-- A publication that names no session is not fenced by the token. -/
theorem unfenced_publication_survives_loss :
    ∃ before after final earlier, Run (StoreStep fun _ _ => true) .empty earlier before ∧
        StoreStep (fun _ _ => true) before (.invalidated "a") after ∧
        Run (StoreStep fun _ _ => true) after [.operation "e" samplePublication ""] final ∧
        ∃ stored, final.environments "e" = some stored ∧
          stored.assignment.nodeId = "a" ∧ stored.invalidated = false := by
  have hscan : Run (StoreStep fun _ _ => true) .empty [.scan "a"] (sampleScanned .empty) :=
    .snoc (.refl _) (.scan 0 "a")
  have hdone := @StoreStep.invalidate (fun _ _ => true) (sampleScanned .empty) 0 "a" _
    (fun _ => .keep) rfl (fun _ => rfl) (by simp) rfl
  exact ⟨_, _, _, _, hscan, hdone, .snoc (.refl _) (step_samplePublication rfl),
    sampleStored, rfl, rfl, rfl⟩

def samplePublished : Store :=
  ⟨⟨update (fun _ => none) "e" (some sampleStored), fun _ => none,
    update (fun _ => 0) "a" 1⟩, fun _ => none⟩

/-- An environment that was published before is invalidated, and stays so when
another node comes up and is scanned. -/
theorem published_environment_fenced : ∃ before after final earlier stored,
      Run (StoreStep fun _ _ => true) .empty earlier before ∧
        StoreStep (fun _ _ => true) before (.invalidated "a") after ∧
        Run (StoreStep fun _ _ => true) after [.sessionWritten "b" "s", .scan "b"] final ∧
        final.environments "e" = some stored ∧ stored.invalidated = true := by
  have hpublish : Run (StoreStep fun _ _ => true) .empty
      [.operation "e" samplePublication ""] samplePublished :=
    .snoc (.refl _) (step_samplePublication rfl)
  have hscan : Run (StoreStep fun _ _ => true) .empty _ (sampleScanned samplePublished) :=
    hpublish.snoc (.scan 0 "a")
  let plans (id : String) : Plan :=
    if id = "e" then .write { sampleStored with
      invalidated := true, result := some (sampleStored.retired 2) } else .keep
  have hplans (id : String) :
      invalidateNode (fun _ _ => true) (samplePublished.environments id) "a" = .ok (plans id) := by
    by_cases hid : id = "e"
    · subst hid
      rfl
    · simp only [plans, hid, samplePublished, update_of_ne hid, if_false]
      rfl
  have hdone := @StoreStep.invalidate (fun _ _ => true) (sampleScanned samplePublished)
    0 "a" _ plans rfl hplans (fun _ _ _ => rfl) rfl
  have hnext (after : Store) : Run (StoreStep fun _ _ => true) after _ _ :=
    .snoc (.snoc (.refl _) (.sessionWritten "b" "s")) (.scan 1 "b")
  have hput := (lost_node_stays_fenced hscan hdone (hnext _)).1
    (by simp [Label.Excludes]) "e" _ rfl rfl
  exact ⟨_, _, _, _, _, hscan, hdone, hnext _, rfl, hput⟩

end Sample

end AgentDx.Platform.Coordinator
