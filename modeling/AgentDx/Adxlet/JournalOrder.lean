import AgentDx.Adxlet.Journal

/-!
# Journaled results keep their order

A task that publishes the results of an environment holds the lock of that
environment, and the list it works through stays equal to the rows of the
database.  So nothing is offered past a result that is still in the database,
and a row goes only when the cluster has answered that it is published or
ownership has ended.
-/

namespace AgentDx.Adxlet

open Transition List Function

abbrev Trace := List (Option Event)

/-! ## Rows of the database -/

/-- The results of one environment share their assignment, and their revisions
do not decrease. -/
def Follows (first second : Entry) : Prop :=
  first.environment = second.environment →
    first.pending.record.assignment = second.pending.record.assignment ∧
      first.pending.record.revision ≤ second.pending.record.revision

lemma entriesOf_acknowledge (environment sequence database) :
    entriesOf environment (acknowledge sequence database) =
      acknowledge sequence (entriesOf environment database) := by
  simp only [entriesOf, acknowledge, filter_filter, Bool.and_comm]

variable {entry : Entry} {rest : List Entry}

lemma acknowledge_head (hsort : (entry :: rest).Pairwise (·.sequence < ·.sequence)) :
    acknowledge entry.sequence (entry :: rest) = rest := by
  have hr : ∀ other ∈ rest, entry.sequence < other.sequence := (pairwise_cons.mp hsort).1
  rw [acknowledge, filter_cons_of_neg (by simp), filter_eq_self]
  intro other ho
  simpa using (hr other ho).ne'

variable {database : List Entry}

lemma sequence_injective (hsort : database.Pairwise (·.sequence < ·.sequence))
    (hone : first ∈ database) (htwo : second ∈ database)
    (heq : first.sequence = second.sequence) : first = second := by
  have h : (database.map (·.sequence)).Nodup := pairwise_map.mpr (hsort.imp fun hlt => hlt.ne)
  exact inj_on_of_nodup_map h hone htwo heq

lemma acknowledge_other (hsort : database.Pairwise (·.sequence < ·.sequence))
    (hentry : entry ∈ database) (hother : entry.environment ≠ environment) :
    entriesOf environment (acknowledge entry.sequence database) =
      entriesOf environment database := by
  rw [entriesOf_acknowledge, acknowledge, filter_eq_self]
  intro row hrw
  obtain ⟨hrw, hen⟩ := mem_filter.mp hrw
  have hds : row.sequence ≠ entry.sequence := by
    intro heq
    rw [sequence_injective hsort hrw hentry heq] at hen
    exact hother (by simpa using hen)
  simpa using hds

lemma mem_entriesOf : entry ∈ entriesOf environment database ↔
      entry ∈ database ∧ entry.environment = environment := by
  simp [entriesOf]

variable {pending : Pending}

lemma follows_of_inserted {sequence} (hfollows : database.Pairwise Follows)
    (hchecks : appendChecks database pending = .inserted) (hrow : entry ∈ database) :
        Follows entry ⟨sequence, pending⟩ := by
  intro hen
  have hm : entry ∈ entriesOf pending.environment database := mem_entriesOf.mpr ⟨hrow, hen⟩
  unfold appendChecks at hchecks
  cases hls : (entriesOf pending.environment database).getLast? with
  | none =>
    rw [getLast?_eq_none_iff.mp hls] at hm
    cases hm
  | some old =>
    obtain ⟨earlier, hrw⟩ := getLast?_eq_some_iff.mp hls
    have hol : old ∈ entriesOf pending.environment database := by
      simp [hrw]
    -- every row of the environment is followed by the latest one
    have hlt : entry.pending.record.assignment = old.pending.record.assignment ∧
          entry.pending.record.revision ≤ old.pending.record.revision := by
      have hpa : (entriesOf pending.environment database).Pairwise Follows := hfollows.filter _
      rw [hrw] at hm hpa
      rcases mem_append.mp hm with her | heq
      · exact (pairwise_append.mp hpa).2.2 entry her old
          mem_cons_self
          (hen.trans (mem_entriesOf.mp hol).2.symm)
      · rw [mem_singleton.mp heq]
        exact ⟨rfl, le_rfl⟩
    have hnx : old.pending.record.assignment = pending.record.assignment ∧
        old.pending.record.revision ≤ pending.record.revision := by
      simp only [hls] at hchecks
      split at hchecks
      · cases hchecks
      split at hchecks
      · cases hchecks
      rename_i hag
      by_cases hrc : old.pending.record = pending.record
      · rw [hrc]
        exact ⟨rfl, le_rfl⟩
      · simp only [supersedes, ne_eq, decide_not, Bool.and_eq_true,
          Bool.not_eq_eq_eq_not, Bool.not_true, decide_eq_false_iff_not,
          Bool.or_eq_true, decide_eq_true_eq, not_and, not_or] at hag
        obtain ⟨⟨hass, -⟩, hrv⟩ := hag hrc
        exact ⟨not_not.mp hass, by omega⟩
    exact ⟨hlt.1.trans hnx.1, hlt.2.trans hnx.2⟩

/-! ## Stages -/

/-- The rows a task still has to publish. -/
def Goal.Holds (goal : Goal) (entries database : List Entry) : Prop :=
  match goal.environment? with
  | some environment => entriesOf environment database = entries
  | none => database = entries

/-- A result may be removed for this cause. -/
def Cause.Sound (trace : Trace) (entry : Entry) : Cause → Prop
  | .published => some (.answered entry .published) ∈ trace
  | .unassigned => some (.unassigned entry) ∈ trace
  | .catalog records => recoverVerdict records entry.pending = .discard

def Stage.Sound (trace : Trace) (database : List Entry) : Stage → Prop
  | .admitted _ | .appending _ => True
  | .publishing goal entries => goal.Holds entries database
  | .offering goal entry rest | .checking goal entry rest =>
    goal.Holds (entry :: rest) database
  | .removing goal entry rest cause =>
    goal.Holds (entry :: rest) database ∧ cause.Sound trace entry
  | .direct pending => entriesOf pending.environment database = []
  | .recovering _ entries => database = entries
  | .reoffering _ entry rest => database = entry :: rest
  | .dropping _ entry rest cause =>
    database = entry :: rest ∧ cause.Sound trace entry

structure Sound (trace : Trace) (system : System) : Prop where
  sorted : system.database.Pairwise (·.sequence < ·.sequence)
  below : ∀ entry ∈ system.database, entry.sequence < system.nextSequence
  follows : system.database.Pairwise Follows
  alone : ∀ {id other stage otherStage}, system.tasks id = some stage →
    stage.exclusive = true → system.tasks other = some otherStage → other = id
  serial : ∀ {id other stage otherStage environment},
    system.tasks id = some stage → stage.locks = some environment →
    system.tasks other = some otherStage → otherStage.locks = some environment → other = id
  stages : ∀ {id stage}, system.tasks id = some stage → stage.Sound trace system.database

variable {trace : Trace}

lemma Cause.Sound.snoc {cause : Cause} (hcause : cause.Sound trace entry) (label) :
    cause.Sound (trace ++ [label]) entry := by
  cases cause with
  | published | unassigned => exact mem_append_left _ hcause
  | catalog records => exact hcause

variable {goal : Goal}

lemma Goal.Holds.of_rows
    (hhas : goal.Holds entries database) (hshared : goal.environment?.isNone = false)
    (hrows : ∀ {environment}, goal.environment? = some environment →
      entriesOf environment changed = entriesOf environment database) :
    goal.Holds entries changed := by
  cases h : goal.environment? with
  | none => simp [h] at hshared
  | some environment =>
    unfold Goal.Holds at hhas ⊢
    rw [h] at hhas ⊢
    exact (hrows h).trans hhas

variable {stage : Stage}

lemma Stage.Sound.of_rows {changed} (hstage : stage.Sound trace database)
    (hshared : stage.exclusive = false) (hrows : ∀ {environment}, stage.locks = some environment →
      entriesOf environment changed = entriesOf environment database) (label) :
          stage.Sound (trace ++ [label]) changed := by
  cases stage with
  | admitted | appending => trivial
  | publishing | offering | checking => exact Goal.Holds.of_rows hstage hshared hrows
  | removing => exact ⟨Goal.Holds.of_rows hstage.1 hshared hrows, hstage.2.snoc label⟩
  | direct pending => exact (hrows rfl).trans hstage
  | recovering | reoffering | dropping => cases hshared

lemma Stage.Sound.snoc (hstage : stage.Sound trace database) (label) :
    stage.Sound (trace ++ [label]) database := by
  cases stage with
  | removing | dropping => exact ⟨hstage.1, hstage.2.snoc label⟩
  | _ => exact hstage

/-! ## Every step keeps the invariant -/

section Step

variable {trace : Trace} {system next : System} {label : Option Event} {id : ℕ}

variable {after : Option Stage}

variable (hinv : Sound trace system)

include hinv

lemma Sound.rebuild (htasks : next.tasks = update system.tasks id after)
    (hsort : next.database.Pairwise (·.sequence < ·.sequence))
    (hbelow : ∀ entry ∈ next.database, entry.sequence < next.nextSequence)
    (hfollows : next.database.Pairwise Follows)
    (halone : ∀ {stage}, after = some stage → stage.exclusive = true →
      ∀ {other otherStage}, system.tasks other = some otherStage → other = id)
    (hserial : ∀ {stage environment}, after = some stage → stage.locks = some environment →
      ∀ {other otherStage}, system.tasks other = some otherStage →
        otherStage.locks = some environment → other = id)
    (hstage : ∀ {stage}, after = some stage → stage.Sound (trace ++ [label]) next.database)
    (hothers : ∀ {other stage}, other ≠ id → system.tasks other = some stage →
      stage.Sound (trace ++ [label]) next.database ∧ (after ≠ none → stage.exclusive = false)) :
    Sound (trace ++ [label]) next := by
  have hsl : next.tasks id = after := by simp [htasks]
  have ho {other : ℕ} (hne : other ≠ id) :
      next.tasks other = system.tasks other := by simp [htasks, hne]
  refine ⟨hsort, hbelow, hfollows, ?_, ?_, ?_⟩
  · intro first second stage otherStage hfs hex hsn
    by_cases hfi : first = id
    · subst hfi
      rw [hsl] at hfs
      by_contra hne
      rw [ho hne] at hsn
      exact hne (halone hfs hex hsn)
    · rw [ho hfi] at hfs
      by_cases hse : second = id
      · subst hse
        rw [hsl] at hsn
        rw [(hothers hfi hfs).2 (by simp [hsn])] at hex
        cases hex
      · rw [ho hse] at hsn
        exact hinv.alone hfs hex hsn
  · intro first second stage otherStage environment hfs hlk hsn hot
    by_cases hfi : first = id
    · subst hfi
      rw [hsl] at hfs
      by_contra hne
      rw [ho hne] at hsn
      exact hne (hserial hfs hlk hsn hot)
    · rw [ho hfi] at hfs
      by_cases hse : second = id
      · subst hse
        rw [hsl] at hsn
        exact (hserial hsn hot hfs hlk).symm
      · rw [ho hse] at hsn
        exact hinv.serial hfs hlk hsn hot
  · intro other stage ht
    by_cases hid : other = id
    · subst hid
      exact hstage (hsl ▸ ht)
    · exact (hothers hid ((ho hid).symm.trans ht)).1

variable {before : Stage}

lemma Sound.shared (hpre : system.tasks id = some before) (hne : other ≠ id)
    (hother : system.tasks other = some stage) : stage.exclusive = false := by
  by_contra h
  exact hne (hinv.alone hother (Bool.eq_true_of_not_eq_false h) hpre).symm

/-- A task goes on with the locks it has and changes at most the rows of its own
environment. -/
lemma Sound.change (hpre : system.tasks id = some before)
    (htasks : next.tasks = update system.tasks id after)
    (hsort : next.database.Pairwise (·.sequence < ·.sequence))
    (hbelow : ∀ entry ∈ next.database, entry.sequence < next.nextSequence)
    (hfollows : next.database.Pairwise Follows)
    (hlocks : ∀ {stage}, after = some stage → (stage.exclusive = true → before.exclusive = true) ∧
        ∀ {environment}, stage.locks = some environment → before.locks = some environment)
    (hstage : ∀ {stage}, after = some stage → stage.Sound (trace ++ [label]) next.database)
    (hrows : ∀ {environment}, before.exclusive = false → before.locks ≠ some environment →
      entriesOf environment next.database = entriesOf environment system.database) :
    Sound (trace ++ [label]) next := by
  refine hinv.rebuild htasks hsort hbelow hfollows ?_ ?_ hstage ?_
  · intro stage ha hex other otherStage ho
    exact hinv.alone hpre ((hlocks ha).1 hex) ho
  · intro stage environment ha hst other otherStage ho hot
    exact hinv.serial hpre ((hlocks ha).2 hst) ho hot
  · intro other stage hne ho
    have hsh := hinv.shared hpre hne ho
    refine ⟨(hinv.stages ho).of_rows hsh ?_ label, fun _ => hsh⟩
    intro environment hst
    refine hrows ?_ ?_
    · by_contra hex
      exact hne (hinv.alone hpre (Bool.eq_true_of_not_eq_false hex) ho)
    · intro hbe
      exact hne (hinv.serial hpre hbe ho hst)

lemma Sound.pass (hpre : system.tasks id = some before)
    (htasks : next.tasks = update system.tasks id after)
    (hdata : next.database = system.database) (hnext : next.nextSequence = system.nextSequence)
    (hlocks : ∀ {stage}, after = some stage → (stage.exclusive = true → before.exclusive = true) ∧
        ∀ {environment}, stage.locks = some environment → before.locks = some environment)
    (hstage : ∀ {stage}, after = some stage → stage.Sound (trace ++ [label]) system.database) :
    Sound (trace ++ [label]) next := by
  refine hinv.change hpre htasks ?_ ?_ ?_ hlocks ?_ ?_
  · rw [hdata]
    exact hinv.sorted
  · rw [hdata, hnext]
    exact hinv.below
  · rw [hdata]
    exact hinv.follows
  · rw [hdata]
    exact hstage
  · intro environment _ _
    rw [hdata]

lemma Sound.ends (htasks : next.tasks = update system.tasks id none)
    (hdata : next.database = system.database) (hnext : next.nextSequence = system.nextSequence) :
    Sound (trace ++ [label]) next := by
  refine hinv.rebuild htasks (hdata ▸ hinv.sorted) ?_ (hdata ▸ hinv.follows) (by simp) (by simp)
    (by simp) ?_
  · rw [hdata, hnext]
    exact hinv.below
  · intro other stage _ ho
    refine ⟨?_, fun hnn => absurd rfl hnn⟩
    rw [hdata]
    exact (hinv.stages ho).snoc label

lemma Sound.failed (hpre : system.tasks id = some before)
    (hlocks : before.locks = goal.environment?) (unavailable) :
    Sound (trace ++ [label]) (system.failed id goal unavailable) := by
  unfold System.failed
  split
  · refine hinv.pass hpre rfl rfl rfl ?_ ?_
    · rintro _ ⟨⟩
      exact ⟨fun h => (by cases h), fun h => hlocks.trans h⟩
    · rintro _ ⟨⟩
      trivial
  · exact hinv.ends rfl rfl rfl

lemma Sound.remove {after} (hpre : system.tasks id = some before) (hentry : entry ∈ system.database)
    (henv : before.exclusive = true ∨ before.locks = some entry.environment)
    (htasks : next.tasks = update system.tasks id (some after))
    (hdata : next.database = acknowledge entry.sequence system.database)
    (hnext : next.nextSequence = system.nextSequence)
    (hexcl : after.exclusive = before.exclusive) (hlocks : after.locks = before.locks)
    (hstage : after.Sound (trace ++ [label]) next.database) : Sound (trace ++ [label]) next := by
  refine hinv.change hpre htasks ?_ ?_ ?_ ?_ ?_ ?_
  · rw [hdata]
    exact hinv.sorted.filter _
  · rw [hdata, hnext]
    exact fun row hrw => hinv.below row (mem_of_mem_filter hrw)
  · rw [hdata]
    exact hinv.follows.filter _
  · rintro _ ⟨⟩
    exact ⟨fun h => hexcl ▸ h, fun h => hlocks ▸ h⟩
  · rintro _ ⟨⟩
    exact hstage
  · intro environment hsh ho
    rw [hdata]
    refine acknowledge_other hinv.sorted hentry fun heq => ho ?_
    rw [hsh] at henv
    rw [henv.resolve_left (by simp), heq]

lemma Sound.insert (hpre : system.tasks id = some (.appending pending))
    (hchecks : appendChecks system.database pending = .inserted) :
    Sound (trace ++ [label]) ((system.insert pending).finish id) := by
  refine hinv.change hpre rfl ?_ ?_ ?_ (by simp) (by simp) ?_
  · refine pairwise_append.mpr ⟨hinv.sorted, by simp, ?_⟩
    intro entry he row hrw
    rw [mem_singleton.mp hrw]
    exact hinv.below entry he
  · intro entry he
    rcases mem_append.mp he with he | he
    · exact (hinv.below entry he).trans (Nat.lt_succ_self _)
    · rw [mem_singleton.mp he]
      exact Nat.lt_succ_self _
  · refine pairwise_append.mpr ⟨hinv.follows, by simp, ?_⟩
    intro entry he row hrw
    rw [mem_singleton.mp hrw]
    exact follows_of_inserted hinv.follows hchecks he
  · intro environment _ ho
    have hne : pending.environment ≠ environment := fun heq =>
      ho (congrArg some heq)
    simp [entriesOf, System.insert, System.finish, Entry.environment, hne]

omit hinv

lemma Goal.Holds.mem (hhas : goal.Holds (entry :: rest) database) : entry ∈ database := by
  unfold Goal.Holds at hhas
  split at hhas
  · have h : entry ∈ entriesOf _ database := hhas ▸ mem_cons_self
    exact (mem_entriesOf.mp h).1
  · exact hhas ▸ mem_cons_self

lemma Goal.Holds.covers (hhas : goal.Holds (entry :: rest) database) :
    goal.environment?.isNone = true ∨ goal.environment? = some entry.environment := by
  unfold Goal.Holds at hhas
  split at hhas
  next environment hgl =>
    have he : entry ∈ entriesOf environment database := hhas ▸ mem_cons_self
    rw [(mem_entriesOf.mp he).2]
    exact .inr hgl
  next hgl => exact .inl (by simp [hgl])

lemma Goal.Holds.acknowledge (hhas : goal.Holds (entry :: rest) database)
    (hsort : database.Pairwise (·.sequence < ·.sequence)) :
    goal.Holds rest (acknowledge entry.sequence database) := by
  unfold Goal.Holds at hhas ⊢
  split
  · simp only [*] at hhas
    rw [entriesOf_acknowledge, hhas]
    exact acknowledge_head (hhas ▸ hsort.filter _)
  · simp only [*] at hhas
    rw [hhas]
    exact acknowledge_head (hhas ▸ hsort)

lemma Sound.step (hinv : Sound trace system)
    (hstep : Step system label next) : Sound (trace ++ [label]) next := by
  cases hstep with
  | @commit id pending hfr hsh hrd | @prepare id record hvl hfr hsh hrd =>
    refine hinv.rebuild rfl hinv.sorted hinv.below hinv.follows ?_ ?_ ?_
      fun _ ho => ⟨(hinv.stages ho).snoc none, fun _ => hsh _ _ ho⟩
    · rintro _ ⟨⟩ hex
      cases hex
    · rintro _ _ ⟨⟩ hlk
      cases hlk
    · rintro _ ⟨⟩
      trivial
  | flush hid hrd | recover catalog hid =>
    refine hinv.rebuild rfl hinv.sorted hinv.below hinv.follows ?_ ?_ ?_ ?_
    · simp [hid]
    · simp [hid]
    · rintro _ ⟨⟩
      rfl
    · simp [hid]
  | @enter id goal environment ht hgl hfr hag =>
    refine hinv.rebuild rfl hinv.sorted hinv.below hinv.follows ?_ ?_ ?_
      fun hne ho => ⟨(hinv.stages ho).snoc none, fun _ => hinv.shared ht hne ho⟩
    · rintro _ ⟨⟩ hex
      simp [Stage.exclusive, hgl] at hex
    · rintro _ other ⟨⟩ hlk _ _ ho hot
      rw [← hlk, Stage.locks, hgl] at hot
      exact absurd hot (hfr _ _ ho)
    · rintro _ ⟨⟩
      simp [Stage.Sound, Goal.Holds, hgl, System.advance]
  | offer ht | rejected ht han | offerDirect ht | reoffer ht hvr =>
    refine hinv.pass ht rfl rfl rfl ?_ ?_
    · rintro _ ⟨⟩
      exact ⟨id, id⟩
    · rintro _ ⟨⟩
      exact hinv.stages ht
  | published ht | disowned ht | republished ht =>
    refine hinv.pass ht rfl rfl rfl ?_ ?_
    · rintro _ ⟨⟩
      exact ⟨id, id⟩
    · rintro _ ⟨⟩
      exact ⟨hinv.stages ht, by simp [Cause.Sound]⟩
  | unpublished ht han => exact hinv.failed ht rfl _
  | owned unavailable ht => exact hinv.failed ht rfl unavailable
  | remove ht =>
    have hhd := (hinv.stages ht).1
    exact hinv.remove ht hhd.mem hhd.covers rfl rfl rfl rfl rfl (hhd.acknowledge hinv.sorted)
  | removeFails ht => exact hinv.failed ht rfl true
  | answerDirect answer ht =>
    split
    · refine hinv.pass ht rfl rfl rfl ?_ ?_
      · rintro _ ⟨⟩
        exact ⟨id, id⟩
      · rintro _ ⟨⟩
        trivial
    · exact hinv.ends rfl rfl rfl
  | append ht hch | appendUnsynced ht hch => exact hinv.insert ht hch
  | present ht hch | appendFails created ht | recoverDone ht | leave => exact hinv.ends rfl rfl rfl
  | discard ht hvr =>
    refine hinv.pass ht rfl rfl rfl ?_ ?_
    · rintro _ ⟨⟩
      exact ⟨id, id⟩
    · rintro _ ⟨⟩
      exact ⟨hinv.stages ht, hvr⟩
  | drop ht =>
    have hrw := (hinv.stages ht).1
    refine hinv.remove ht (hrw ▸ mem_cons_self) (.inl rfl) rfl rfl
      rfl rfl rfl ?_
    exact (congrArg _ hrw).trans (acknowledge_head (hrw ▸ hinv.sorted))
  | restart => exact ⟨hinv.sorted, hinv.below, hinv.follows, by simp, by simp, by simp⟩

lemma Sound.of_run (hrun : Run Step System.start trace system) : Sound trace system := by
  induction hrun with
  | refl => exact ⟨.nil, by simp [System.start], .nil, by simp [System.start],
      by simp [System.start], by simp [System.start]⟩
  | snoc _ last ih => exact ih.step last

end Step

/-! ## The guarantees -/

section

variable (catalog : List EnvironmentRecord) (pending : Pending)

/-- What the catalog says about the environment of a result. -/
def recorded : Option EnvironmentRecord :=
  catalog.find? (·.spec.id = pending.environment)

/-- The catalog does not have the environment under the assignment and
specification of the result. -/
def Disowned : Prop :=
  ∀ current, recorded catalog pending = some current →
    current.assignment ≠ pending.record.assignment ∨ current.spec ≠ pending.record.spec

/-- The catalog has a record of at least the revision of the result. -/
def Overtaken : Prop :=
  ∃ current, recorded catalog pending = some current ∧ pending.record.revision ≤ current.revision

/-- The catalog has a terminal record that holds nothing any more, and the
result does not report a stopped runtime. -/
def Retired : Prop :=
  ∃ current, recorded catalog pending = some current ∧
    current.state.terminal = true ∧ current.resourcesHeld = false ∧
    current.restartPending = false ∧ pending.stoppedRuntimeIds = []

end

lemma discard_justified (hdiscard : recoverVerdict catalog pending = .discard) :
    Disowned catalog pending ∨ Overtaken catalog pending ∨ Retired catalog pending := by
  unfold recoverVerdict at hdiscard
  cases hfn : recorded catalog pending with
  | none => exact .inl fun current hcr => by simp [hfn] at hcr
  | some current =>
    rw [← recorded, hfn] at hdiscard
    simp only at hdiscard
    by_cases hgt : grants current pending = true
    · simp only [hgt, if_true] at hdiscard
      split at hdiscard
      · cases hdiscard
      split at hdiscard
      · cases hdiscard
      rename_i hlt
      exact .inr (.inl ⟨current, hfn, by
        by_contra hls
        exact hlt (.inl (by omega))⟩)
    · by_cases how : current.assignment = pending.record.assignment ∧
        current.spec = pending.record.spec
      · refine .inr (.inr ⟨current, hfn, ?_⟩)
        simpa [grants, how.1, how.2, and_assoc] using hgt
      · refine .inl fun other ho => ?_
        rw [hfn] at ho
        cases ho
        exact not_and_or.mp how

/-- A result is removed for a reason. -/
def Justified (trace : Trace) (entry : Entry) : Cause → Prop
  | .published => some (.answered entry .published) ∈ trace
  | .unassigned => some (.unassigned entry) ∈ trace
  | .catalog catalog => Disowned catalog entry.pending ∨
      Overtaken catalog entry.pending ∨ Retired catalog entry.pending

lemma Cause.Sound.justified (hcause : cause.Sound trace entry) : Justified trace entry cause := by
  cases cause with
  | published | unassigned => exact hcause
  | catalog records => exact discard_justified hcause

/-- What a step of the journal keeps to. -/
structure Ordered (trace : Trace) (system : System) (label : Option Event)
    (next : System) : Prop where
  /-- A result is offered when no earlier one of its environment is left. -/
  offered : ∀ sequence pending, label = some (.offered sequence pending) →
    ∀ entry ∈ system.database, entry.environment = pending.environment →
      ∃ number, sequence = some number ∧ number ≤ entry.sequence
  /-- A journaled result is in the database. -/
  journaled : ∀ pending, label = some (.journaled pending) →
    ∃ entry ∈ next.database, entry.pending = pending
  /-- A result leaves the database for a reason. -/
  removed : ∀ entry ∈ system.database, entry ∉ next.database →
    ∃ cause, label = some (.removed entry cause) ∧ Justified trace entry cause
  /-- The results of an environment agree. -/
  follows : next.database.Pairwise Follows

section Guarantees

variable {trace : Trace} {system next : System} {label : Option Event}

lemma Goal.Holds.first (hhas : goal.Holds (entry :: rest) database)
    (hsort : database.Pairwise (·.sequence < ·.sequence))
    (hrow : row ∈ database) (henv : row.environment = entry.environment) :
    entry.sequence ≤ row.sequence := by
  have hro : ∃ rows : List Entry, rows = entry :: rest ∧
      rows.Pairwise (·.sequence < ·.sequence) ∧ row ∈ rows := by
    unfold Goal.Holds at hhas
    split at hhas
    next environment _ =>
      have he : entry ∈ entriesOf environment database := hhas ▸ mem_cons_self
      exact ⟨_, hhas, hsort.filter _, mem_entriesOf.mpr ⟨hrow, henv.trans (mem_entriesOf.mp he).2⟩⟩
    · exact ⟨_, hhas, hsort, hrow⟩
  obtain ⟨_, rfl, hpa, hm⟩ := hro
  rcases mem_cons.mp hm with rfl | hr
  · exact le_rfl
  · exact ((pairwise_cons.mp hpa).1 row hr).le

lemma Sound.offered (hinv : Sound trace system) (hstep : Step system label next) {sequence}
    (htag : label = some (.offered sequence pending)) (hrow : entry ∈ system.database)
    (henv : entry.environment = pending.environment) :
    ∃ number, sequence = some number ∧ number ≤ entry.sequence := by
  cases hstep with
  | offer ht =>
    cases htag
    have hhd : Goal.Holds _ _ _ := hinv.stages ht
    exact ⟨_, rfl, hhd.first hinv.sorted hrow henv⟩
  | reoffer ht hvr =>
    cases htag
    have hrw := hinv.stages ht
    have hhd : Goal.flush.Holds _ system.database := hrw
    exact ⟨_, rfl, hhd.first hinv.sorted hrow henv⟩
  | offerDirect ht =>
    cases htag
    have hnn : entriesOf pending.environment system.database = [] := hinv.stages ht
    have hm := mem_entriesOf.mpr ⟨hrow, henv⟩
    rw [hnn] at hm
    cases hm
  | _ => cases htag

lemma Sound.journaled (hstep : Step system label next) (htag : label = some (.journaled pending)) :
    ∃ entry ∈ next.database, entry.pending = pending := by
  cases hstep with
  | append ht hch =>
    cases htag
    exact ⟨⟨system.nextSequence, pending⟩, by
      simp [System.insert, System.finish], rfl⟩
  | present ht hch =>
    cases htag
    unfold appendChecks at hch
    split at hch
    · cases hch
    next old hls =>
      split at hch
      next hol => exact ⟨old, (mem_entriesOf.mp (mem_of_getLast? hls)).1, hol⟩
      · split at hch <;> cases hch
  | _ => cases htag

lemma acknowledged (hsort : database.Pairwise (·.sequence < ·.sequence))
    (hremoved : removed ∈ database) (hrow : entry ∈ database)
    (hgone : entry ∉ acknowledge removed.sequence database) : entry = removed := by
  refine sequence_injective hsort hrow hremoved ?_
  by_contra hne
  exact hgone (mem_filter.mpr ⟨hrow, by simpa using hne⟩)

lemma Sound.removed (hinv : Sound trace system) (hstep : Step system label next)
    (hrow : entry ∈ system.database) (hgone : entry ∉ next.database) :
    ∃ cause, label = some (.removed entry cause) ∧ Justified trace entry cause := by
  cases hstep with
  | remove ht =>
    obtain ⟨hhd, hca⟩ := hinv.stages ht
    obtain rfl := acknowledged hinv.sorted hhd.mem hrow hgone
    exact ⟨_, rfl, hca.justified⟩
  | drop ht =>
    obtain ⟨hrw, hca⟩ := hinv.stages ht
    obtain rfl := acknowledged hinv.sorted (hrw ▸ mem_cons_self) hrow hgone
    exact ⟨_, rfl, hca.justified⟩
  | append | appendUnsynced => exact absurd (mem_append_left _ hrow) hgone
  | unpublished | owned | removeFails =>
    unfold System.failed at hgone
    split at hgone <;> exact absurd hrow hgone
  | answerDirect answer ht => split at hgone <;> exact absurd hrow hgone
  | _ => exact absurd hrow hgone

/-- In every run, each step offers results in order, removes one only for a
reason, and keeps the results of an environment in agreement. -/
theorem results_keep_order (hrun : Run Step System.start trace system)
    (hstep : Step system label next) : Ordered trace system label next where
  offered _ _ htag _ hrow henv := (Sound.of_run hrun).offered hstep htag hrow henv
  journaled _ htag := Sound.journaled hstep htag
  removed _ hrow hgone := (Sound.of_run hrun).removed hstep hrow hgone
  follows := ((Sound.of_run hrun).step hstep).follows

end Guarantees

/-! ## Concrete runs -/

def sandbox : EnvironmentSpec := ⟨"env", false, ""⟩

def placed : Assignment := ⟨"env", "node", 0, 1, []⟩

/-- A result of the sandbox. -/
def result (revision : ℕ) (state : EnvironmentState) : Pending :=
  ⟨⟨sandbox, placed, state, revision, false, false, ""⟩, [], []⟩

lemma result_journaled (pending) : ∃ trace system, Run Step System.start trace system ∧
      system.database = [⟨1, pending⟩] ∧ system.ready = true ∧ ∀ id, system.tasks id = none := by
  have hcm := Run.snoc (.refl System.start)
    (@Step.commit System.start 0 pending rfl (by simp [System.start]) rfl)
  have hen := hcm.snoc (@Step.enter _ 0 _ pending.environment rfl rfl
    (by
      intro other stage ht
      match other with
      | 0 =>
        cases ht
        simp [Stage.locks]
      | _ + 1 => cases ht)
    (by simp [commitConflicts, System.advance, System.start, entriesOf]))
  have hof := hen.snoc (@Step.offerDirect _ 0 pending rfl)
  have han := hof.snoc (@Step.answerDirect _ 0 pending .unavailable rfl)
  have hap := han.snoc (@Step.append _ 0 pending rfl rfl)
  refine ⟨_, _, hap, rfl, rfl, ?_⟩
  rintro (_ | id) <;> rfl

/-- The environment failed and holds nothing: the catalog's revision is lower
than that of the result, and recovery drops the result all the same. -/
theorem recovery_drops_later_result :
    ∃ trace system next entry catalog, Run Step System.start trace system ∧
      Step system (some (.removed entry (.catalog catalog))) next ∧
      entry ∈ system.database ∧ entry ∉ next.database ∧
      ¬Disowned catalog entry.pending ∧ ¬Overtaken catalog entry.pending := by
  obtain ⟨trace, system, hrun, hdb, -, -⟩ := result_journaled (result 2 .deleted)
  have hrestarted := hrun.snoc Step.restart
  have hrecovering := hrestarted.snoc (@Step.recover _ 0 [(result 1 .failed).record] fun _ => rfl)
  have hdropping := hrecovering.snoc (@Step.discard _ 0
    [(result 1 .failed).record] ⟨1, result 2 .deleted⟩ []
    (by simp [System.advance, hdb]) (by decide))
  refine ⟨_, _, _, ⟨1, result 2 .deleted⟩, [(result 1 .failed).record], hdropping,
    @Step.drop _ 0 _ _ [] _ rfl, ?_, ?_, ?_, ?_⟩
  · simp [System.advance, hdb]
  · simp [System.advance, hdb, acknowledge]
  · intro hdisowned
    have hother := hdisowned (result 1 .failed).record rfl
    simp [result] at hother
  · rintro ⟨current, hcur, hrev⟩
    cases hcur
    revert hrev
    decide

/-- A second commit of the environment has read the journaled result. -/
lemma commit_entered : ∃ trace system, Run Step System.start trace system ∧
      system.database = [⟨1, result 1 .running⟩] ∧ system.ready = true ∧
      system.tasks = Function.update (fun _ => none) 0
        (some (.publishing (.commit (result 2 .paused)) [⟨1, result 1 .running⟩])) := by
  obtain ⟨trace, system, hrun, hdatabase, hready, hidle⟩ := result_journaled (result 1 .running)
  have hdone := hrun.snoc
    (@Step.commit system 0 (result 2 .paused) (hidle 0) (by simp [hidle]) hready)
  have henter := hdone.snoc (@Step.enter _ 0 _ "env" rfl rfl
    (by
      intro other stage htask
      match other with
      | 0 =>
        cases htask
        simp [Stage.locks]
      | other + 1 => cases (hidle (other + 1)).symm.trans htask)
    (by
      rintro _ ⟨⟩
      simp only [System.advance, hdatabase]
      decide))
  refine ⟨_, _, henter, hdatabase, hready, ?_⟩
  rw [← funext hidle]
  simp only [System.advance, hdatabase, Function.update_idem]
  rfl

/-- The second commit offers the journaled result first. -/
theorem journaled_result_offered_first : ∃ trace system next, Run Step System.start trace system ∧
      Step system (some (.offered (some 1) (result 1 .running))) next ∧
      Ordered trace system (some (.offered (some 1) (result 1 .running))) next ∧
      ⟨1, result 1 .running⟩ ∈ system.database := by
  obtain ⟨trace, system, hrun, hdatabase, -, htasks⟩ := commit_entered
  have htask := congrFun htasks 0
  exact ⟨trace, system, _, hrun, .offer htask, results_keep_order hrun (.offer htask),
    by simp [hdatabase]⟩

/-- In every run, what a task has read from the journal is what the journal holds of its
environment until the task is done, and no other task works on that environment. -/
theorem snapshots_stay_current {id : ℕ} {stage : Stage} (hrun : Run Step System.start trace system)
    (htask : system.tasks id = some stage) : stage.Sound trace system.database ∧
    ∀ other otherStage, system.tasks other = some otherStage → other ≠ id →
      stage.exclusive = false ∧ ∀ environment, stage.locks = some environment →
        otherStage.locks ≠ some environment := by
  have hs := Sound.of_run hrun
  refine ⟨hs.stages htask, fun other otherStage hot hne => ⟨?_, fun environment hlk hol => ?_⟩⟩
  · rw [Bool.eq_false_iff]
    exact fun hex => hne (hs.alone htask hex hot)
  · exact hne (hs.serial htask hlk hot hol)

/-- A commit has read the journaled result while a third one waits for the
environment. -/
theorem commit_snapshot_current : ∃ trace system waiting, Run Step System.start trace system ∧
      system.tasks 0 = some (.publishing (.commit (result 2 .paused)) [⟨1, result 1 .running⟩]) ∧
      system.tasks 1 = some waiting ∧
      entriesOf "env" system.database = [⟨1, result 1 .running⟩] ∧ waiting.locks ≠ some "env" := by
  obtain ⟨trace, system, hrun, hdatabase, hready, htasks⟩ := commit_entered
  have hthird := hrun.snoc (@Step.commit system 1 (result 3 .running) (by simp [htasks])
    (by
      intro other stage htask
      rw [htasks, Function.update_apply] at htask
      split at htask <;> cases htask
      rfl)
    hready)
  have htask : (system.advance 1 (.admitted (.commit (result 3 .running)))).tasks 0 =
      some (.publishing (.commit (result 2 .paused)) [⟨1, result 1 .running⟩]) :=
    congrFun htasks 0
  obtain ⟨hhas, halone⟩ := snapshots_stay_current hthird htask
  exact ⟨_, _, _, hthird, htask, rfl, hhas, (halone 1 _ rfl (by decide)).2 "env" rfl⟩

end AgentDx.Adxlet
