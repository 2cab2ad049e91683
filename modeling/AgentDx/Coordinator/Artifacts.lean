import AgentDx.Lib.Table
import AgentDx.Coordinator.Stored

/-!
# Deleting artifacts

Environment results, snapshots and execution holds refer to artifacts.  A writer
holds a shared lock for each artifact that its script makes a record refer to.  A
deletion takes the exclusive lock and then reads the three catalogs one after
another, with no transaction around the reads.

Commands are executed in the order of their submission, and a lock may be gone
before the command is executed: its task can be cancelled at any point.
-/

namespace AgentDx.Platform.Coordinator.Artifacts

open List hiding next
open Table

/-! ## References -/

def artifactKey (artifact : CheckpointArtifact) : String :=
  artifact.storage ++ ":" ++ artifact.location

def sameArtifact (left right : CheckpointArtifact) : Prop :=
  left.storage = right.storage ∧ left.location = right.location

/-- The converse fails, as a storage or a location may contain a colon. -/
lemma sameArtifact.artifactKey_eq
    (heq : sameArtifact left right) : artifactKey left = artifactKey right := by
  rw [artifactKey, artifactKey, heq.1, heq.2]

def recordReferences (r : EnvironmentRecord) : List CheckpointArtifact :=
  (r.checkpoint.toList ++ r.snapshotSource.toList).map (·.artifact) ++ r.executionArtifacts

def references (stored : StoredEnvironment) : List CheckpointArtifact :=
  (stored.result.map recordReferences).getD []

structure ExecutionHold where
  assignment : Assignment
  artifacts : List CheckpointArtifact

def holdKey (assignment : Assignment) : String :=
  assignment.nodeId ++ ":" ++ assignment.environmentId ++ ":" ++ toString assignment.generation

/-! ## Snapshots -/

inductive SnapshotState where
  | ready | deleting | deleted
  deriving DecidableEq, Repr

inductive Reference where
  | restore (environmentId : String)
  | template (nodeId templateId : String)
  deriving DecidableEq, Repr

/-- `char::is_control`. -/
def isControl (c : Char) : Bool := c.toNat < 32 || 127 ≤ c.toNat && c.toNat < 160

def validId (id : String) : Bool := id ≠ "" && id.utf8ByteSize ≤ 256 && !id.toList.any isControl

def Reference.validate : Reference → Bool
  | .restore environmentId => validId environmentId
  | .template nodeId templateId => validId nodeId && validId templateId

structure Snapshot where
  id : String
  /-- `template.tenant_id`. -/
  tenantId : String
  artifact : CheckpointArtifact
  revision : ℕ
  state : SnapshotState
  references : Finset Reference
  /-- The other fields. -/
  rest : String
  deriving DecidableEq

namespace Snapshot

def collectable (s : Snapshot) : Bool := s.state = .deleting && s.references = ∅

/-- The change is counted. -/
def advance (s next : Snapshot) : Option Snapshot :=
  if s.revision + 1 < 2 ^ 64 then some { next with revision := s.revision + 1 } else none

inductive Change where
  | acquire (tenant : String) (reference : Reference)
  | release (reference : Reference)
  | delete (tenant : String)
  | deleted (expected : ℕ)

/-- `Snapshot::acquire`, `release`, `delete` and `deleted`; no value stands for an
error. -/
def change (s : Snapshot) : Change → Option Snapshot
  | .acquire tenant reference =>
    if s.tenantId ≠ tenant ∨ !reference.validate then none
    else if reference ∈ s.references then some s
    else if s.state ≠ .ready then none
    else s.advance { s with references := insert reference s.references }
  | .release reference =>
    if !reference.validate then none
    else if reference ∈ s.references then
      s.advance { s with references := s.references.erase reference }
    else some s
  | .delete tenant =>
    if s.tenantId ≠ tenant then none
    else if s.state ≠ .ready then some s
    else if s.references ≠ ∅ then none
    else s.advance { s with state := .deleting }
  | .deleted expected =>
    if s.state = .deleted then some s
    else if s.revision ≠ expected ∨ !s.collectable then none
    else s.advance { s with state := .deleted }

variable {s next new : Snapshot}

lemma advance_eq_some (hadvance : s.advance next = some new) :
    new = { next with revision := s.revision + 1 } := by
  unfold advance at hadvance
  split at hadvance
  · exact (Option.some.inj hadvance).symm
  · cases hadvance

/-- A change never moves a snapshot to another artifact, and never back to an
earlier state. -/
lemma change_spec (hchange : s.change step = some new) :
    new.artifact = s.artifact ∧ (s.state = .deleted → new.state = .deleted) ∧
      (s.collectable → new.state = .deleted ∨ new.collectable) := by
  cases step with
  | acquire tenant reference =>
    simp only [change] at hchange
    split_ifs at hchange with _ _ hrd
    · cases hchange
      exact ⟨rfl, fun h => h, .inr⟩
    · obtain rfl := advance_eq_some hchange
      simp [collectable, not_not.mp hrd]
  | release reference =>
    simp only [change] at hchange
    split_ifs at hchange
    · obtain rfl := advance_eq_some hchange
      refine ⟨rfl, fun h => h, fun hcl => .inr ?_⟩
      simp only [collectable, Bool.and_eq_true, decide_eq_true_eq] at hcl ⊢
      simp [hcl.1, hcl.2]
    · cases hchange
      exact ⟨rfl, fun h => h, .inr⟩
  | delete tenant =>
    simp only [change] at hchange
    split_ifs at hchange with _ hrd
    · cases hchange
      exact ⟨rfl, fun h => h, .inr⟩
    · obtain rfl := advance_eq_some hchange
      simp [collectable, not_not.mp hrd]
  | deleted expected =>
    simp only [change] at hchange
    split_ifs at hchange
    · cases hchange
      exact ⟨rfl, fun h => h, .inr⟩
    · obtain rfl := advance_eq_some hchange
      exact ⟨rfl, fun _ => rfl, fun _ => .inl rfl⟩

end Snapshot

/-! ## Scripts -/

structure Tables where
  environments : String → Option StoredEnvironment
  snapshots : String → Option Snapshot
  holds : String → Option ExecutionHold

def addInput (inputs : List CheckpointArtifact) (artifact : CheckpointArtifact) :
    List CheckpointArtifact :=
  if inputs.contains artifact then inputs else inputs ++ [artifact]

/-- What an execution on a lost node may still be reading; `retained` are the
snapshots that the invalidation has listed. -/
def inputs (retained : String → Option Snapshot) (stored : StoredEnvironment) :
    List CheckpointArtifact :=
  let record := stored.effectiveRecord
  if record.resourcesHeld then
    (((stored.spec.snapshotId.bind retained).map (·.artifact)).toList ++
      (record.checkpoint.toList ++ record.snapshotSource.toList).map
        (·.artifact)).foldl addInput record.executionArtifacts
  else record.executionArtifacts

/-- An environment that an invalidation writes. -/
structure Retired where
  id : String
  old : StoredEnvironment
  next : StoredEnvironment

def Tables.retire (retained : String → Option Snapshot) (tables : Tables)
    (retired : Retired) : Tables where
  environments := Function.update tables.environments retired.id (some retired.next)
  snapshots := tables.snapshots
  holds := if inputs retained retired.old = [] then tables.holds
    else Function.update tables.holds (holdKey retired.old.assignment)
      (some ⟨retired.old.assignment, inputs retained retired.old⟩)

/-- The scripts that write one of the catalogs. -/
inductive Script where
  /-- A record, by `object_cas_with_counters`, `control_volume_cas` or
  `publish_success`; without a result also by a claim.  A script with several
  records is as many of these in a row. -/
  | record (id : String) (old : Option StoredEnvironment) (next : StoredEnvironment)
  | remove (id : String) (old : StoredEnvironment)
  | publishSnapshot (created : Snapshot)
  | mutateSnapshot (id : String) (old next : Snapshot)
  | invalidate (nodeId : String) (retained : String → Option Snapshot)
      (retired : List Retired)
  | releaseExecutionHolds (nodeId : String)

namespace Script

/-- The artifacts whose shared locks the task holds when it submits the script. -/
def locked : Script → List CheckpointArtifact
  | .record _ _ next => references next
  | .remove .. => []
  | .publishSnapshot created => [created.artifact]
  | .mutateSnapshot _ _ next => if next.state = .ready then [next.artifact] else []
  | .invalidate _ retained retired => retired.flatMap fun r => inputs retained r.old
  | .releaseExecutionHolds _ => []

/-- What the callers have checked before. -/
def Issued (specValid : EnvironmentSpec → Assignment → Bool) : Script → Prop
  | .record .. | .remove .. | .releaseExecutionHolds _ => True
  | .publishSnapshot created =>
    created.state = .ready ∧ created.revision = 1 ∧ created.references = ∅
  | .mutateSnapshot _ old next =>
    (∃ step, old.change step = some next) ∧ next.revision ≠ old.revision
  | .invalidate nodeId _ retired => ∀ r ∈ retired,
      invalidateNode specValid (some r.old) nodeId = .ok (.write r.next)

/-- What the script compares in the catalogs before it writes. -/
def Expects (tables : Tables) : Script → Prop
  | .record id old _ => tables.environments id = old
  | .remove id old => tables.environments id = some old
  | .publishSnapshot created => tables.snapshots created.id = none
  | .mutateSnapshot id old _ => tables.snapshots id = some old
  | .invalidate _ _ retired => ∀ r ∈ retired, tables.environments r.id = some r.old
  | .releaseExecutionHolds _ => True

def run (tables : Tables) : Script → Tables
  | .record id _ next => { tables with
      environments := Function.update tables.environments id (some next) }
  | .remove id _ => { tables with
      environments := Function.update tables.environments id none }
  | .publishSnapshot created => { tables with
      snapshots := Function.update tables.snapshots created.id (some created) }
  | .mutateSnapshot id _ next => { tables with
      snapshots := Function.update tables.snapshots id (some next) }
  | .invalidate _ retained retired => retired.foldl (Tables.retire retained) tables
  | .releaseExecutionHolds nodeId => { tables with
      holds := fun key => (tables.holds key).filter (·.assignment.nodeId ≠ nodeId) }

end Script

/-! ## Claims -/

/-- A call of `claim_artifact_deletion` that holds the exclusive lock, or the guard
it has returned. -/
structure Claim where
  artifact : CheckpointArtifact
  deletingSnapshot : Option String
  /-- How many of its four commands have been answered. -/
  answered : ℕ

namespace Claim

/-- No environment, no other snapshot and no hold refers to the artifact. -/
def Unreferenced (claim : Claim) (tables : Tables) : ℕ → Prop
  | 0 => ∀ id stored, tables.environments id = some stored →
      ∀ artifact ∈ references stored, ¬ sameArtifact artifact claim.artifact
  | 1 => ∀ id s, tables.snapshots id = some s → sameArtifact s.artifact claim.artifact →
        s.state = .deleted ∨ claim.deletingSnapshot = some id ∧ s.collectable
  | 2 => ∀ key hold, tables.holds key = some hold →
      ∀ artifact ∈ hold.artifacts, ¬ sameArtifact artifact claim.artifact
  -- the last command compares the epoch
  | _ => True

def Clear (claim : Claim) (tables : Tables) : Prop :=
  ∀ catalog < claim.answered, claim.Unreferenced tables catalog

/-- The script makes nothing refer to the artifact. -/
def Apart (claim : Claim) (script : Script) : Prop :=
  ∀ artifact ∈ script.locked, artifactKey artifact ≠ artifactKey claim.artifact

end Claim

variable {specValid : EnvironmentSpec → Assignment → Bool} {claim : Claim}
  {tables : Tables} {script : Script}

lemma Claim.Apart.not_same (hapart : claim.Apart script) {artifact}
    (hlocked : artifact ∈ script.locked) : ¬ sameArtifact artifact claim.artifact :=
  fun heq => hapart artifact hlocked heq.artifactKey_eq

lemma recordReferences_effectiveRecord (stored : StoredEnvironment) :
    recordReferences stored.effectiveRecord = references stored := by
  obtain ⟨_, execution, _, _, _, _, _, result⟩ := stored
  cases execution with
  | none => cases result <;> rfl
  | some execution =>
    simp only [StoredEnvironment.effectiveRecord]
    split <;> cases result <;> rfl

lemma references_of_invalidateNode
    (hplan : invalidateNode specValid (some old) nodeId = .ok (.write next)) :
    references next = references old := by
  obtain ⟨_, h, rfl⟩ := invalidateNode_write hplan
  obtain rfl := Option.some.inj h
  exact recordReferences_effectiveRecord old

/-! ## One script -/

namespace Claim.Unreferenced

lemma environments (hissued : script.Issued specValid) (hapart : claim.Apart script)
    (hexpects : script.Expects tables) (hclear : claim.Unreferenced tables 0) :
    claim.Unreferenced (script.run tables) 0 := by
  cases script with
  | record id old next => exact forall_update hclear fun artifact => hapart.not_same
  | remove id old => exact fun other stored hst => hclear other stored (of_update_none hst)
  | publishSnapshot created | mutateSnapshot id old next | releaseExecutionHolds nodeId =>
    exact hclear
  | invalidate nodeId retained retired =>
    refine foldlRecOn (motive := fun before => claim.Unreferenced before 0)
      retired _ hclear fun before hb r hr => forall_update hb ?_
    rw [references_of_invalidateNode (hissued r hr)]
    exact hclear r.id r.old (hexpects r hr)

lemma snapshots (hissued : script.Issued specValid) (hapart : claim.Apart script)
    (hexpects : script.Expects tables) (hclear : claim.Unreferenced tables 1) :
    claim.Unreferenced (script.run tables) 1 := by
  cases script with
  | record id old next | remove id old | releaseExecutionHolds nodeId => exact hclear
  | publishSnapshot created =>
    exact forall_update hclear fun heq => absurd heq (hapart.not_same mem_cons_self)
  | mutateSnapshot id old next =>
    obtain ⟨⟨step, hch⟩, -⟩ := hissued
    obtain ⟨har, hdl, hco⟩ := Snapshot.change_spec hch
    refine forall_update hclear fun heq => ?_
    rcases hclear id old hexpects (har ▸ heq) with hst | ⟨hid, hst⟩
    · exact .inl (hdl hst)
    · exact (hco hst).imp_right fun hnx => ⟨hid, hnx⟩
  | invalidate nodeId retained retired =>
    exact foldlRecOn (motive := fun before => claim.Unreferenced before 1)
      retired _ hclear fun before hb r _ => hb

lemma holds (hapart : claim.Apart script) (hclear : claim.Unreferenced tables 2) :
    claim.Unreferenced (script.run tables) 2 := by
  cases script with
  | record id old next | remove id old | publishSnapshot created | mutateSnapshot id old next =>
    exact hclear
  | releaseExecutionHolds nodeId =>
    exact fun key hol hhl => hclear key hol (Option.filter_eq_some_iff.mp hhl).1
  | invalidate nodeId retained retired =>
    refine foldlRecOn (motive := fun before => claim.Unreferenced before 2)
      retired _ hclear fun before hb r hr => ?_
    simp only [Unreferenced, Tables.retire]
    split
    · exact hb
    · exact forall_update hb fun artifact har =>
        hapart.not_same (mem_flatMap.mpr ⟨r, hr, har⟩)

/-- A script that locks no artifact under the key of a claim keeps what the claim
has found. -/
lemma run (hissued : script.Issued specValid) (hapart : claim.Apart script)
    (hexpects : script.Expects tables) (hclear : claim.Unreferenced tables catalog) :
    claim.Unreferenced (script.run tables) catalog := by
  match catalog with
  | 0 => exact environments hissued hapart hexpects hclear
  | 1 => exact snapshots hissued hapart hexpects hclear
  | 2 => exact holds hapart hclear
  | _ + 3 => trivial

end Claim.Unreferenced

/-! ## The Coordinator -/

inductive Command where
  | script (script : Script)
  /-- The next command of a claim. -/
  | claim (task : ℕ)

structure System where
  tables : Tables
  /-- Submitted and not yet executed, oldest first. -/
  queue : List Command
  /-- The keys each task has locked for shared access. -/
  shared : ℕ → List String
  claims : ℕ → Option Claim

def System.initial (tables : Tables) : System := ⟨tables, [], fun _ => [], fun _ => none⟩

variable (specValid) in
inductive Step : System → System → Prop where
  | lockArtifact {system : System} (task artifact)
      (hfree : ∀ other claim, system.claims other = some claim →
        artifactKey claim.artifact ≠ artifactKey artifact) : Step system { system with
        shared := Function.update system.shared task (artifactKey artifact :: system.shared task) }
  /-- A task is done with its locks, has failed or was cancelled. -/
  | unlock {system} (task) :
      Step system { system with shared := Function.update system.shared task [] }
  | submit {system : System} {script : Script} (task) (hissued : script.Issued specValid)
      (hlocked : ∀ artifact ∈ script.locked, artifactKey artifact ∈ system.shared task) :
      Step system { system with queue := system.queue ++ [.script script] }
  | execute {system : System} {script queue} (hqueue : system.queue = .script script :: queue)
      (hexpects : script.Expects system.tables) :
      Step system { system with tables := script.run system.tables, queue := queue }
  /-- One of the script's comparisons has failed, of the catalogs or of the epoch, a
  header or a session. -/
  | reject {system : System} {script queue} (hqueue : system.queue = .script script :: queue) :
      Step system { system with queue := queue }
  | claimArtifactDeletion {system : System} {task} (artifact deletingSnapshot)
      (hfresh : system.claims task = none ∧ .claim task ∉ system.queue)
      (hshared : ∀ other, artifactKey artifact ∉ system.shared other)
      (hexclusive : ∀ other claim, system.claims other = some claim →
        artifactKey claim.artifact ≠ artifactKey artifact) : Step system { system with
        claims := Function.update system.claims task (some ⟨artifact, deletingSnapshot, 0⟩) }
  | ask {system : System} {task claim} (hclaim : system.claims task = some claim)
      (hmore : claim.answered < 4) (hidle : .claim task ∉ system.queue) :
      Step system { system with queue := system.queue ++ [.claim task] }
  | answer {system : System} {task claim queue} (hqueue : system.queue = .claim task :: queue)
      (hclaim : system.claims task = some claim)
      (hclear : claim.Unreferenced system.tables claim.answered) : Step system { system with
        queue := queue
        claims := Function.update system.claims task
          (some { claim with answered := claim.answered + 1 }) }
  /-- A claim that finds a reference, or whose call is gone, ends without a guard. -/
  | refuse {system : System} {task queue} (hqueue : system.queue = .claim task :: queue) :
      Step system { system with
        queue := queue
        claims := Function.update system.claims task none }
  /-- Dropping a guard, or the call of a claim at any of its commands. -/
  | drop {system} (task) :
      Step system { system with claims := Function.update system.claims task none }

variable {system after : System} {task : ℕ} {command : Command}
  {queue : List Command}

def Claim.Ordered (claim : Claim) (task : ℕ) (earlier later : Command) : Prop :=
  earlier = .claim task → ∀ script, later = .script script → claim.Apart script

/-- What a claim can rely on while it holds its lock.  Scripts for its artifact
may have been submitted before it had the lock, and these come before its own
commands. -/
structure Claim.Held (claim : Claim) (task : ℕ) (system : System) : Prop where
  excluded : ∀ other, artifactKey claim.artifact ∉ system.shared other
  ordered : system.queue.Pairwise (claim.Ordered task)
  quiet : 0 < claim.answered → ∀ script, .script script ∈ system.queue → claim.Apart script
  clear : claim.Clear system.tables

structure Sound (specValid : EnvironmentSpec → Assignment → Bool) (system : System) : Prop where
  issued : ∀ script, .script script ∈ system.queue → script.Issued specValid
  held : ∀ task claim, system.claims task = some claim → claim.Held task system

namespace Claim.Held

lemma push (hheld : claim.Held task system)
    (hapart : ∀ script, command = .script script → claim.Apart script) :
    claim.Held task { system with queue := system.queue ++ [command] } where
  excluded := hheld.excluded
  ordered := by
    refine pairwise_append.mpr ⟨hheld.ordered, pairwise_singleton _ _, ?_⟩
    intro earlier _ later hlt _ script hsc
    exact hapart script (mem_singleton.mp hlt ▸ hsc)
  quiet han script hsc := by
    rcases mem_append.mp hsc with hsc | hsc
    · exact hheld.quiet han script hsc
    · exact hapart script (mem_singleton.mp hsc).symm
  clear := hheld.clear

lemma pop (hheld : claim.Held task system) (hqueue : system.queue = command :: queue) :
    claim.Held task { system with queue := queue } where
  excluded := hheld.excluded
  ordered := (pairwise_cons.mp (hqueue ▸ hheld.ordered)).2
  quiet han script hsc := hheld.quiet han script (hqueue ▸ mem_cons_of_mem _ hsc)
  clear := hheld.clear

lemma execute (hheld : claim.Held task system) (hissued : script.Issued specValid)
    (hexpects : script.Expects system.tables) (hqueue : system.queue = .script script :: queue) :
    claim.Held task
      { system with tables := script.run system.tables, queue := queue } where
  excluded := hheld.excluded
  ordered := (hheld.pop hqueue).ordered
  quiet := (hheld.pop hqueue).quiet
  clear catalog hct := by
    have hap := hheld.quiet (by omega) script (hqueue ▸ mem_cons_self)
    exact (hheld.clear catalog hct).run hissued hap hexpects

/-- The scripts behind a command of the claim were submitted under its lock. -/
lemma answer (hheld : claim.Held task system) (hqueue : system.queue = .claim task :: queue)
    (hclear : claim.Unreferenced system.tables claim.answered) :
    ({ claim with answered := claim.answered + 1 } : Claim).Held task
      { system with queue := queue } where
  excluded := hheld.excluded
  ordered := (hheld.pop hqueue).ordered
  quiet _ script hsc := by
    have hor := hheld.ordered
    rw [hqueue] at hor
    exact (pairwise_cons.mp hor).1 _ hsc rfl script rfl
  clear catalog hct := by
    rcases Nat.lt_succ_iff_lt_or_eq.mp hct with hct | rfl
    · exact hheld.clear catalog hct
    · exact hclear

end Claim.Held

lemma Sound.popped (hinv : Sound specValid system) (hqueue : system.queue = command :: queue)
    (script) (hscript : .script script ∈ queue) : script.Issued specValid :=
  hinv.issued script (hqueue ▸ mem_cons_of_mem _ hscript)

lemma Sound.step (hinv : Sound specValid system)
    (hstep : Step specValid system after) : Sound specValid after := by
  cases hstep with
  | lockArtifact task artifact hfr =>
    refine ⟨hinv.issued, fun other claim hcm => ?_⟩
    have hh := hinv.held other claim hcm
    refine { hh with excluded := fun holder => ?_ }
    by_cases hhl : holder = task
    · subst hhl
      simpa using ⟨hfr other claim hcm, hh.excluded holder⟩
    · simpa [hhl] using hh.excluded holder
  | unlock task =>
    refine ⟨hinv.issued, fun other claim hcm => ?_⟩
    have hh := hinv.held other claim hcm
    refine { hh with excluded := fun holder => ?_ }
    by_cases hhl : holder = task
    · simp [hhl]
    · simpa [hhl] using hh.excluded holder
  | @submit script task hiss hlc =>
    constructor
    · intro other ho
      rcases mem_append.mp ho with ho | ho
      · exact hinv.issued other ho
      · obtain rfl : other = script := by simpa using ho
        exact hiss
    · intro other claim hcm
      have hh := hinv.held other claim hcm
      refine hh.push ?_
      rintro _ ⟨⟩ artifact har hky
      exact hh.excluded task (hky ▸ hlc artifact har)
  | execute hq hex =>
    have hiss := hinv.issued _ (hq ▸ mem_cons_self)
    exact ⟨hinv.popped hq, fun other claim hcm => (hinv.held other claim hcm).execute hiss hex hq⟩
  | reject hq =>
    exact ⟨hinv.popped hq, fun other claim hcm => (hinv.held other claim hcm).pop hq⟩
  | @claimArtifactDeletion task artifact deletingSnapshot hf hsh _ =>
    refine ⟨hinv.issued, forall_update (fun other claim hcm => ?_) ?_⟩
    · exact { hinv.held other claim hcm with }
    · refine ⟨hsh, ?_, by simp, by simp [Claim.Clear]⟩
      refine pairwise_of_forall_sublist fun hpr hcm => ?_
      exact absurd (hpr.subset (hcm ▸ mem_cons_self)) hf.2
  | ask hcm _ _ =>
    refine ⟨fun other ho => hinv.issued other (by simpa using ho),
      fun other claim hcm => (hinv.held other claim hcm).push ?_⟩
    rintro _ ⟨⟩
  | @answer task claim queue hq hcm hcl =>
    refine ⟨hinv.popped hq, forall_update (fun other claim hcm => ?_) ?_⟩
    · exact { (hinv.held other claim hcm).pop hq with }
    · exact { (hinv.held task claim hcm).answer hq hcl with }
  | refuse hq =>
    refine ⟨hinv.popped hq, fun other claim hcm => ?_⟩
    exact { (hinv.held other claim (of_update_none hcm)).pop hq with }
  | drop task =>
    refine ⟨hinv.issued, fun other claim hcm => ?_⟩
    exact { hinv.held other claim (of_update_none hcm) with }

lemma Sound.initial : Sound specValid (.initial tables) where
  issued script hsc := by cases hsc
  held task claim hcm := by cases hcm

lemma Sound.run (hrun : Relation.ReflTransGen (Step specValid) (.initial tables) system) :
    Sound specValid system := by
  induction hrun with
  | refl => exact .initial
  | tail _ h ih => exact ih.step h

/-- From the moment a claim returns its guard until the guard is dropped, no
environment result, no execution hold and no snapshot, other than the collectable
one being deleted, refers to the artifact. -/
theorem guarded_artifact_unreferenced
    (hrun : Relation.ReflTransGen (Step specValid) (.initial tables) system)
    (hclaim : system.claims task = some claim) (hguard : claim.answered = 4) :
    (∀ id stored, system.tables.environments id = some stored →
      ∀ artifact ∈ references stored, ¬ sameArtifact artifact claim.artifact) ∧
    (∀ id s, system.tables.snapshots id = some s → sameArtifact s.artifact claim.artifact →
        s.state = .deleted ∨ claim.deletingSnapshot = some id ∧ s.collectable) ∧
    ∀ key hold, system.tables.holds key = some hold →
      ∀ artifact ∈ hold.artifacts, ¬ sameArtifact artifact claim.artifact := by
  have hclear := ((Sound.run hrun).held task claim hclaim).clear
  exact ⟨hclear 0 (by omega), hclear 1 (by omega), hclear 2 (by omega)⟩

/-! A collectable snapshot, and the claim that deletes its artifact. -/

def sampleSnapshot : Snapshot :=
  ⟨"snapshot", "tenant", ⟨"s3", "shared", "image", 1⟩, 2, .deleting, ∅, ""⟩

def sampleTables : Tables where
  environments _ := none
  snapshots := Function.update (fun _ => none) "snapshot" (some sampleSnapshot)
  holds _ := none

def sampleClaim (answered : ℕ) : Claim := ⟨sampleSnapshot.artifact, some "snapshot", answered⟩

def sampleSystem (answered : ℕ) : System :=
  ⟨sampleTables, [], fun _ => [], Function.update (fun _ => none) 0 (some (sampleClaim answered))⟩

lemma sampleClaim_unreferenced (answered catalog) :
    (sampleClaim answered).Unreferenced sampleTables catalog := by
  match catalog with
  | 0 => rintro _ _ ⟨⟩
  | 1 => exact forall_update (by rintro _ _ ⟨⟩) fun _ => .inr ⟨rfl, rfl⟩
  | 2 => rintro _ _ ⟨⟩
  | _ + 3 => trivial

lemma sampleSystem_answer (hmore : answered < 4) :
    Relation.ReflTransGen (Step specValid) (sampleSystem answered)
      (sampleSystem (answered + 1)) := by
  have hak : Step specValid (sampleSystem answered)
      { sampleSystem answered with queue := [.claim 0] } :=
    .ask rfl hmore not_mem_nil
  have han := @Step.answer specValid { sampleSystem answered with
    queue := [.claim 0] } 0 _ [] rfl rfl (sampleClaim_unreferenced answered answered)
  refine .tail (.single hak) ?_
  simpa [sampleSystem, sampleClaim] using han

lemma sampleSystem_run :
    Relation.ReflTransGen (Step specValid) (.initial sampleTables) (sampleSystem 4) := by
  have h : Step specValid (.initial sampleTables) (sampleSystem 0) :=
    .claimArtifactDeletion sampleSnapshot.artifact (some "snapshot")
      ⟨rfl, not_mem_nil⟩ (fun _ => not_mem_nil) (by rintro _ _ ⟨⟩)
  exact .trans (.trans (.trans (.trans (.single h)
    (sampleSystem_answer (by decide))) (sampleSystem_answer (by decide)))
    (sampleSystem_answer (by decide))) (sampleSystem_answer (by decide))

theorem collectable_snapshot_guarded :
    (sampleSystem 4).claims 0 = some (sampleClaim 4) ∧ (sampleSnapshot.state = .deleted ∨
        (sampleClaim 4).deletingSnapshot = some "snapshot" ∧ sampleSnapshot.collectable) :=
  ⟨rfl, (@guarded_artifact_unreferenced (fun _ _ => true) _ _ _ 0 sampleSystem_run rfl
    rfl).2.1 "snapshot" sampleSnapshot rfl ⟨rfl, rfl⟩⟩

end AgentDx.Platform.Coordinator.Artifacts
