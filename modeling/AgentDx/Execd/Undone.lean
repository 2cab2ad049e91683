import AgentDx.Execd.Control

/-!
# Preparations are undone

The cooperation lock has one holder, and only its holder takes the controller out
of the preparing, prepared and restoring phases.  So whenever the controller is
running, the guest of every preparation it accepted has been released.  Request
admission is reopened on every way back except one: a preparation whose own hook
failed and was rolled back leaves it closed.
-/

namespace AgentDx.Execd

open Transition

variable {Identity : Type}

/-! ## Preparations and their ends -/

/-- The event ends the preparation that was accepted last. -/
def Event.ends : Event Identity → Bool
  | .accepted _ => false
  | _ => true

abbrev Trace (Identity : Type) := List (Option (Event Identity))

/-- A preparation ends before another one is accepted. -/
def EndsFirst (later : Trace Identity) : Prop :=
  ∃ first event last, later = first ++ some event :: last ∧
    event.ends = true ∧ ∀ request, some (.accepted request) ∉ first

/-- Every accepted preparation has ended. -/
def Ended (trace : Trace Identity) : Prop :=
  ∀ earlier request later, trace = earlier ++ some (.accepted request) :: later → EndsFirst later

/-- At most the last accepted preparation is still open. -/
def Open (trace : Trace Identity) : Prop :=
  ∀ earlier request later, trace = earlier ++ some (.accepted request) :: later →
      EndsFirst later ∨ ∀ request, some (.accepted request) ∉ later

lemma EndsFirst.append (hends : EndsFirst later) (more) : EndsFirst (later ++ more) := by
  obtain ⟨first, event, last, rfl, hev, hfs⟩ := hends
  exact ⟨first, event, last ++ more, by simp, hev, hfs⟩

variable {trace : Trace Identity}

variable {label : Option (Event Identity)}

lemma cut_snoc (htrace : trace ++ [label] = earlier ++ some (.accepted request) :: later) :
    (later = [] ∧ label = some (.accepted request) ∧ trace = earlier) ∨
      ∃ before, later = before ++ [label] ∧
        trace = earlier ++ some (.accepted request) :: before := by
  induction later using List.reverseRecOn with
  | nil =>
    obtain ⟨htrace, h⟩ := List.append_inj' htrace rfl
    exact .inl ⟨rfl, by simpa using h, htrace⟩
  | append_singleton before last _ =>
    rw [← List.cons_append, ← List.append_assoc] at htrace
    obtain ⟨htrace, h⟩ := List.append_inj' htrace rfl
    exact .inr ⟨before, by simpa using h.symm, htrace⟩

lemma Ended.snoc (hended : Ended trace) (htag : ∀ request, label ≠ some (.accepted request)) :
    Ended (trace ++ [label]) := by
  intro earlier request later htr
  obtain ⟨-, heq, -⟩ | ⟨before, rfl, hct⟩ := cut_snoc htr
  · exact absurd heq (htag request)
  · exact (hended earlier request before hct).append [label]

lemma Open.snoc (hopen : Open trace) (htag : ∀ request, label ≠ some (.accepted request)) :
    Open (trace ++ [label]) := by
  intro earlier request later htr
  obtain ⟨-, heq, -⟩ | ⟨before, rfl, hct⟩ := cut_snoc htr
  · exact absurd heq (htag request)
  · obtain hen | hnn := hopen earlier request before hct
    · exact .inl (hen.append [label])
    · refine .inr fun other ho => ?_
      rcases List.mem_append.mp ho with ho | ho
      · exact hnn other ho
      · exact htag other (List.mem_singleton.mp ho).symm

lemma Ended.accepted (hended : Ended trace) (request) :
    Open (trace ++ [some (.accepted request)]) := by
  intro earlier other later htr
  obtain ⟨rfl, -, -⟩ | ⟨before, rfl, hct⟩ := cut_snoc htr
  · exact .inr fun _ => List.not_mem_nil
  · exact .inl ((hended earlier other before hct).append _)

lemma Open.ended (hopen : Open trace) (hends : event.ends = true) :
    Ended (trace ++ [some event]) := by
  intro earlier request later htr
  obtain ⟨-, heq, -⟩ | ⟨before, rfl, hct⟩ := cut_snoc htr
  · cases heq
    cases hends
  · obtain hb | hnn := hopen earlier request before hct
    · exact hb.append _
    · exact ⟨before, event, [], rfl, hends, hnn⟩

/-! ## Stages -/

/-- The task holds the cooperation lock. -/
def Stage.holds : Stage Identity → Bool
  | .preparing _ | .reading _ | .handed _ | .aborting .. => false
  | _ => true

/-- The task has a handoff reader that has not returned. -/
def Stage.reader : Stage Identity → Bool
  | .hooking _ reader | .undoing _ reader _ | .undone _ reader _ _
  | .prepared _ reader => reader
  | .reading _ => true
  | _ => false

/-- The reader of the task runs, or has returned and is not accounted for yet. -/
def Stage.reads : Stage Identity → Bool
  | .reading _ | .handed _ => true
  | _ => false

/-- What holds while a task with the cooperation lock is at a stage. -/
def Stage.Sound (trace : Trace Identity) (state : State Identity)
    (admission probeReadiness : Bool) : Stage Identity → Prop
  | .preparing _ | .reading _ | .handed _ | .aborting .. | .reopening => True
  | .opening _ => state.phase = .preparing ∧ state.readerRunning = false
  | .hooking _ reader | .undoing _ reader _ =>
    state.phase = .preparing ∧ (reader = true → state.readerRunning = false)
  | .undone _ reader _ phase =>
    state.phase = .preparing ∧ (reader = true → state.readerRunning = false) ∧
      (phase = .failed ∨ phase = .running ∧ Ended trace ∧ admission = true)
  | .failing _ phase =>
    state.phase = .preparing ∧ (phase = .failed ∨ phase = .running ∧ Ended trace ∧ admission = true)
  | .prepared _ reader =>
    state.phase = .prepared ∧ (reader = true → state.readerRunning = false)
  | .restoring _ => state.phase = .restoring
  | .resuming outcome => state.phase = .prepared ∧ outcome ≠ .restore
  | .concluding outcome restored released =>
    (state.phase = .prepared ∨ state.phase = .restoring) ∧
      ((conclusion state.identity probeReadiness outcome restored
        released).2.1 = .failed ∨ Ended trace)
  | .rolling reopen =>
    state.phase = .prepared ∧ reopen = state.prepare.any (·.idleRevision.isSome)
  | .rolled reopen released =>
    state.phase = .prepared ∧ reopen = state.prepare.any (·.idleRevision.isSome) ∧
      (released = .ok () → Ended trace)
  | .settling released =>
    state.phase = .prepared ∧ (released = .ok () → Ended trace ∧ admission = true)

/-! ## The invariant -/

structure Sound (trace : Trace Identity) (system : System Identity) : Prop where
  holder : ∀ {id stage}, system.tasks id = some stage → stage.holds = true →
    system.cooperation = some id
  stages : ∀ {id stage}, system.tasks id = some stage →
    stage.Sound trace system.state system.activity.admission system.probeReadiness
  running : ∀ {id stage}, system.tasks id = some stage → stage.reads = true →
    system.state.readerRunning = true
  oneReader : ∀ {id other stage otherStage}, system.tasks id = some stage →
    system.tasks other = some otherStage → (stage.reader || stage.reads) = true →
    (otherStage.reader || otherStage.reads) = true → id = other
  opened : Open trace
  idle : system.state.phase = .running ∨ system.state.phase = .initializing →
    Ended trace ∧ (system.activity.admission = true ∨ ∃ id, system.tasks id = some .reopening)
  plain : system.state.phase ≠ .failed → system.state.prepare.any (·.idleRevision.isSome) = false →
    system.activity.admission = true ∨ ∃ id, system.tasks id = some .reopening

@[simp]
lemma publish_phase (state : State Identity) : state.publish.phase = state.phase := by
  unfold State.publish
  split <;> rfl

@[simp]
lemma publish_readerRunning (state : State Identity) :
    state.publish.readerRunning = state.readerRunning := by
  unfold State.publish
  split <;> rfl

@[simp]
lemma publish_prepare (state : State Identity) : state.publish.prepare = state.prepare := by
  unfold State.publish
  split <;> rfl

@[simp]
lemma publish_identity (state : State Identity) : state.publish.identity = state.identity := by
  unfold State.publish
  split <;> rfl

variable {state : State Identity} {admission probeReadiness : Bool}
  {stage : Stage Identity}

lemma Stage.sound_of_waits (hwaits : stage.holds = false) :
    stage.Sound trace state admission probeReadiness := by
  cases stage <;> trivial

section Sound

variable {trace : Trace Identity} {system next : System Identity}
  {label : Option (Event Identity)} {id fresh : ℕ} {before : Stage Identity}
  {after : Option (Stage Identity)}

lemma Stage.reads_of_reader (hread : (stage.reader || stage.reads) = true)
    (hwaits : stage.holds = false) : stage.reads = true := by
  cases stage <;> trivial

/-- No other task than this one holds the cooperation lock. -/
def Alone (system : System Identity) (id : ℕ) : Prop :=
  ∀ other stage, system.tasks other = some stage → other ≠ id → stage.holds = false

section

variable (hinv : Sound trace system)

include hinv

lemma Sound.alone_of_holds (htask : system.tasks id = some stage)
    (hhas : stage.holds = true) : Alone system id := by
  intro other otherStage ho hne
  by_contra hot
  have hid := hinv.holder htask hhas
  rw [hinv.holder ho (by simpa using hot)] at hid
  exact hne (by simpa using hid)

lemma Sound.alone_of_free (hfree : system.cooperation = none) : Alone system id := by
  intro other stage ho _
  by_contra hhd
  rw [hinv.holder ho (by simpa using hhd)] at hfree
  cases hfree

omit hinv in
/-- A task that is alone and is not reopening admission itself: admission has
been reopened. -/
lemma Alone.not_reopening (halone : Alone system id) (htask : system.tasks id ≠ some .reopening) :
    ¬∃ other, system.tasks other = some .reopening := by
  rintro ⟨other, h⟩
  by_cases hid : other = id
  · exact htask (hid ▸ h)
  · cases halone other _ h hid

lemma Sound.admits (halone : Alone system id) (htask : system.tasks id ≠ some .reopening)
    (hphase : system.state.phase = .running ∨ system.state.phase = .initializing) :
    Ended trace ∧ system.activity.admission = true :=
  ⟨(hinv.idle hphase).1, (hinv.idle hphase).2.resolve_right (halone.not_reopening htask)⟩

lemma Sound.plain_admits (halone : Alone system id) (htask : system.tasks id ≠ some .reopening)
    (hphase : system.state.phase ≠ .failed)
    (hplain : system.state.prepare.any (·.idleRevision.isSome) = false) :
    system.activity.admission = true :=
  (hinv.plain hphase hplain).resolve_right (halone.not_reopening htask)

lemma Sound.rebuild (halone : Alone system id)
    (htasks : next.tasks = Function.update system.tasks id after)
    (hhas : ∀ {stage}, after = some stage → stage.holds = true → next.cooperation = some id)
    (hstage : ∀ {stage}, after = some stage →
      stage.Sound (trace ++ [label]) next.state next.activity.admission next.probeReadiness)
    (hreads : ∀ {other stage}, next.tasks other = some stage →
      stage.reads = true → next.state.readerRunning = true)
    (hread : ∀ {stage}, after = some stage → (stage.reader || stage.reads) = true →
      ∀ {other otherStage}, system.tasks other = some otherStage →
        (otherStage.reader || otherStage.reads) = true → other = id)
          (hopen : Open (trace ++ [label]))
    (hidle : next.state.phase = .running ∨ next.state.phase = .initializing →
      Ended (trace ++ [label]) ∧ (next.activity.admission = true ∨ after = some .reopening))
    (hplain : next.state.phase ≠ .failed → next.state.prepare.any (·.idleRevision.isSome) = false →
      next.activity.admission = true ∨ after = some .reopening) :
    Sound (trace ++ [label]) next := by
  have hsl : next.tasks id = after := by simp [htasks]
  have ho {other : ℕ} (hne : other ≠ id) :
      next.tasks other = system.tasks other := by simp [htasks, hne]
  have hre (ha : after = some .reopening) :
      ∃ other, next.tasks other = some .reopening := ⟨id, hsl.trans ha⟩
  refine ⟨?_, ?_, hreads, ?_, hopen, ?_, ?_⟩
  · intro other stage ht hsh
    by_cases hid : other = id
    · subst hid
      exact hhas (hsl ▸ ht) hsh
    · rw [ho hid] at ht
      simp [halone _ _ ht hid] at hsh
  · intro other stage ht
    by_cases hid : other = id
    · subst hid
      exact hstage (hsl ▸ ht)
    · rw [ho hid] at ht
      exact Stage.sound_of_waits (halone _ _ ht hid)
  · intro first second stage otherStage hfs hsn hst hot
    by_cases hfi : first = id
    · by_cases hse : second = id
      · rw [hfi, hse]
      · subst hfi
        rw [ho hse] at hsn
        exact (hread (hsl ▸ hfs) hst hsn hot).symm
    · rw [ho hfi] at hfs
      by_cases hse : second = id
      · subst hse
        exact hread (hsl ▸ hsn) hot hfs hst
      · rw [ho hse] at hsn
        exact hinv.oneReader hfs hsn hst hot
  · intro hph
    exact ⟨(hidle hph).1, (hidle hph).2.imp_right hre⟩
  · intro hph hpp
    exact (hplain hph hpp).imp_right hre

lemma Sound.no_reader (halone : Alone system id) (hidle : system.state.readerRunning = false)
    (htask : system.tasks other = some stage)
    (hread : (stage.reader || stage.reads) = true) : other = id := by
  by_contra hne
  have h := hinv.running htask (Stage.reads_of_reader hread (halone _ _ htask hne))
  rw [hidle] at h
  cases h

lemma Sound.change (halone : Alone system id) (hpre : system.tasks id = some before)
    (htasks : next.tasks = Function.update system.tasks id after)
    (hhas : ∀ {stage}, after = some stage → next.cooperation = some id ∧ stage.reads = false)
    (hstage : ∀ {stage}, after = some stage →
      stage.Sound (trace ++ [label]) next.state next.activity.admission next.probeReadiness)
    (hread : ∀ {stage}, after = some stage → stage.reader = true →
      before.reader = true ∨ system.state.readerRunning = false)
    (hruns : next.state.readerRunning = system.state.readerRunning ∨ before.reads = true)
    (htag : ∀ request, label ≠ some (.accepted request))
    (hidle : next.state.phase = .running ∨ next.state.phase = .initializing →
      Ended (trace ++ [label]) ∧ (next.activity.admission = true ∨ after = some .reopening))
    (hplain : next.state.phase ≠ .failed → next.state.prepare.any (·.idleRevision.isSome) = false →
      next.activity.admission = true ∨ after = some .reopening) :
    Sound (trace ++ [label]) next := by
  refine hinv.rebuild halone htasks (fun ha _ => (hhas ha).1) hstage ?_ ?_
    (hinv.opened.snoc htag) hidle hplain
  · intro other stage ht hre
    by_cases hid : other = id
    · subst hid
      have ha : after = some stage := by simpa [htasks] using ht
      rw [(hhas ha).2] at hre
      cases hre
    · have ho : system.tasks other = some stage := by
        simpa [htasks, hid] using ht
      obtain heq | how := hruns
      · exact heq.trans (hinv.running ho hre)
      · exact absurd (hinv.oneReader ho hpre (by simp [hre]) (by simp [how])) hid
  · intro stage ha hst other otherStage ho hot
    rw [(hhas ha).2, Bool.or_false] at hst
    obtain heq | hidle := hread ha hst
    · exact hinv.oneReader ho hpre hot (by simp [heq])
    · exact hinv.no_reader halone hidle ho hot

lemma Sound.conclude {outcome changed} {stage : Stage Identity}
    (htask : system.tasks id = some (.handed outcome)) (hlock : system.cooperation = none)
    (hphase : system.state.phase = .prepared) (hreads : stage.reads = false)
    (hread : stage.reader = false)
    (hstage : stage.Sound (trace ++ [none]) changed system.activity.admission system.probeReadiness)
    (hbusy : ¬(changed.phase = .running ∨ changed.phase = .initializing))
    (hprep : changed.prepare = system.state.prepare) :
    Sound (trace ++ [none]) { system.lock id stage with state := changed } := by
  have hal : Alone system id := hinv.alone_of_free hlock
  refine hinv.change hal htask rfl ?_ ?_ ?_ (.inr rfl) (by simp) (absurd · hbusy) ?_
  · rintro _ ⟨⟩
    exact ⟨rfl, hreads⟩
  · rintro _ ⟨⟩
    exact hstage
  · rintro _ ⟨⟩ how
    simp [hread] at how
  · intro _ hpl
    exact .inl (hinv.plain_admits hal (by simp [htask]) (by simp [hphase]) (hprep ▸ hpl))

/-- A step of a task that is alone and leaves the state and admission as they
are. -/
lemma Sound.pass (halone : Alone system id)
    (hpre : system.tasks id = some before) (hopening : before ≠ .reopening)
    (htasks : next.tasks = Function.update system.tasks id after)
    (hstate : next.state = system.state) (hactivity : next.activity = system.activity)
    (hhas : ∀ {stage}, after = some stage → next.cooperation = some id ∧ stage.reads = false)
    (hstage : ∀ {stage}, after = some stage →
      stage.Sound (trace ++ [label]) system.state system.activity.admission next.probeReadiness)
    (hread : ∀ {stage}, after = some stage → stage.reader = true →
      before.reader = true ∨ system.state.readerRunning = false)
    (htag : ∀ request, label ≠ some (.accepted request)) : Sound (trace ++ [label]) next := by
  have had : system.tasks id ≠ some .reopening := by
    rw [hpre]
    simpa using hopening
  refine hinv.change halone hpre htasks hhas ?_ hread (.inl (by rw [hstate])) htag ?_ ?_
  · intro stage ha
    rw [hstate, hactivity]
    exact hstage ha
  · intro hph
    rw [hstate] at hph
    obtain ⟨hen, ham⟩ := hinv.admits halone had hph
    exact ⟨hen.snoc htag, .inl (hactivity ▸ ham)⟩
  · intro hph hpp
    rw [hstate] at hph hpp
    exact .inl (hactivity ▸ hinv.plain_admits halone had hph hpp)

/-- The holder of the lock goes on to a stage that gains no reader, and leaves the
state and admission as they are. -/
lemma Sound.proceed (halone : Alone system id)
    (hpre : system.tasks id = some before) (hopening : before ≠ .reopening)
    (htasks : next.tasks = Function.update system.tasks id (some stage))
    (hstate : next.state = system.state) (hactivity : next.activity = system.activity)
    (hlock : next.cooperation = some id) (hreads : stage.reads = false)
    (hread : stage.reader = true → before.reader = true ∨ system.state.readerRunning = false)
    (htag : ∀ request, label ≠ some (.accepted request))
    (hstage : stage.Sound (trace ++ [label]) system.state system.activity.admission
      next.probeReadiness) : Sound (trace ++ [label]) next := by
  refine hinv.pass halone hpre hopening htasks hstate hactivity ?_ ?_ ?_ htag
  · rintro _ ⟨⟩
    exact ⟨hlock, hreads⟩
  · rintro _ ⟨⟩
    exact hstage
  · rintro _ ⟨⟩
    exact hread

lemma Sound.spawn (hfree : system.tasks fresh = none) (operationId)
    (hnil : ∀ {other stage}, system.tasks other = some stage → (stage.reader || stage.reads) =
      false)
    (hopening : ∀ other operationId, system.tasks other ≠ some (.opening operationId)) :
    Sound trace (system.spawnReader fresh operationId true) := by
  have hsl : (system.spawnReader fresh operationId true).tasks fresh =
      some (.reading operationId) := by
    simp [System.spawnReader, System.advance]
  have ho {other : ℕ} (hne : other ≠ fresh) :
      (system.spawnReader fresh operationId true).tasks other = system.tasks other := by
    simp [System.spawnReader, System.advance, hne]
  have hre : (∃ other, system.tasks other = some .reopening) →
      ∃ other, (system.spawnReader fresh operationId true).tasks other = some .reopening := by
    rintro ⟨other, ht⟩
    refine ⟨other, (ho ?_).trans ht⟩
    rintro rfl
    rw [hfree] at ht
    cases ht
  refine ⟨?_, ?_, fun _ _ => rfl, ?_, hinv.opened, ?_, ?_⟩
  · intro other stage ht hhd
    by_cases hid : other = fresh
    · subst hid
      rw [hsl] at ht
      cases ht
      cases hhd
    · exact hinv.holder ((ho hid).symm.trans ht) hhd
  · intro other stage ht
    by_cases hid : other = fresh
    · subst hid
      rw [hsl] at ht
      cases ht
      trivial
    · have hb := (ho hid).symm.trans ht
      have hst := hinv.stages hb
      have hrd := hnil hb
      cases stage with
      | opening operationId => exact absurd hb (hopening _ _)
      | hooking | undoing | undone | prepared => simp_all [Stage.Sound,
          Stage.reader, Stage.reads, System.spawnReader, System.advance]
      | _ => exact hst
  · intro first second stage otherStage hfs hsn hrd hot
    have hf {place : ℕ} {placed : Stage Identity}
        (ht : (system.spawnReader fresh operationId true).tasks place = some placed)
        (hpl : (placed.reader || placed.reads) = true) : place = fresh := by
      by_contra hne
      rw [hnil ((ho hne).symm.trans ht)] at hpl
      cases hpl
    rw [hf hfs hrd, hf hsn hot]
  · intro hph
    exact ⟨(hinv.idle hph).1, (hinv.idle hph).2.imp_right hre⟩
  · intro hph hpp
    exact (hinv.plain hph hpp).imp_right hre

lemma Sound.readerless (hpre : system.tasks id = some before) (hread : before.reader = true)
    (htasks : next.tasks = Function.update system.tasks id after)
    (hpost : ∀ {stage}, after = some stage → (stage.reader || stage.reads) = false)
    (hother : next.tasks other = some stage) : (stage.reader || stage.reads) = false := by
  by_cases hid : other = id
  · subst hid
    exact hpost (by simpa [htasks] using hother)
  · by_contra h
    exact hid (hinv.oneReader (by simpa [htasks, hid] using hother) hpre
      (Bool.eq_true_of_not_eq_false h) (by simp [hread]))

end

lemma Alone.not_opening (halone : Alone system id)
    (htasks : next.tasks = Function.update system.tasks id after)
    (hpost : ∀ operationId, after ≠ some (.opening operationId)) (other operationId) :
        next.tasks other ≠ some (.opening operationId) := by
  intro h
  by_cases hid : other = id
  · subst hid
    exact hpost operationId (by simpa [htasks] using h)
  · cases halone other (.opening operationId) (by simpa [htasks, hid] using h) hid

lemma spawnReader_advance (hne : fresh ≠ id) (operationId stage) :
    (system.spawnReader fresh operationId true).advance id stage =
      (system.advance id stage).spawnReader fresh operationId true := by
  simp [System.spawnReader, System.advance, Function.update_comm hne]

lemma spawnReader_leave (hne : fresh ≠ id) (operationId) :
    (system.spawnReader fresh operationId true).leave id =
      (system.leave id).spawnReader fresh operationId true := by
  simp [System.spawnReader, System.advance, System.leave, System.finish, Function.update_comm hne]

/-! ## Steps without the lock -/

lemma Stage.Sound.snoc (hstage : stage.Sound trace state admission probeReadiness)
    (htag : ∀ request, label ≠ some (.accepted request)) :
    stage.Sound (trace ++ [label]) state admission probeReadiness := by
  cases stage with
  | undone operationId reader message phase =>
    obtain ⟨hph, hrd, ha⟩ := hstage
    exact ⟨hph, hrd, ha.imp_right fun ⟨hrn, hen, had⟩ =>
      ⟨hrn, hen.snoc htag, had⟩⟩
  | failing message phase =>
    obtain ⟨hph, ha⟩ := hstage
    exact ⟨hph, ha.imp_right fun ⟨hrn, hen, had⟩ =>
      ⟨hrn, hen.snoc htag, had⟩⟩
  | concluding outcome restored released =>
    exact ⟨hstage.1, hstage.2.imp_right (·.snoc htag)⟩
  | rolled reopen released =>
    exact ⟨hstage.1, hstage.2.1, fun hok => (hstage.2.2 hok).snoc htag⟩
  | settling released =>
    exact ⟨hstage.1, fun hok => ⟨(hstage.2 hok).1.snoc htag, (hstage.2 hok).2⟩⟩
  | _ => exact hstage

lemma Stage.Sound.congr (hstage : stage.Sound trace state admission probeReadiness)
    (hphase : changed.phase = state.phase) (hruns : changed.readerRunning = state.readerRunning)
    (hprep : changed.prepare = state.prepare) (hidentity : changed.identity = state.identity) :
    stage.Sound trace changed admission probeReadiness := by
  cases stage with
  | preparing | reading | handed | aborting | reopening => trivial
  | _ =>
    simpa only [Stage.Sound, hphase, hruns, hprep, hidentity] using hstage

lemma Stage.eq_reopening (hstage : stage.Sound trace state admission probeReadiness)
    (hhas : stage.holds = true) (hphase : state.phase = .running ∨ state.phase = .initializing) :
    stage = .reopening := by
  cases stage with
  | concluding outcome restored released =>
    obtain hrn | hin := hphase
    · rcases hstage.1 with ho | ho <;> simp [hrn] at ho
    · rcases hstage.1 with ho | ho <;> simp [hin] at ho
  | _ => simp_all [Stage.Sound, Stage.holds]

lemma Sound.join (hinv : Sound trace system)
    (hpre : ∀ before, system.tasks id = some before → before.holds = false)
    (hwaits : stage.holds = false) (hreads : (stage.reader || stage.reads) = true →
      ∃ before, system.tasks id = some before ∧ before.reads = true) :
    Sound trace (system.advance id stage) := by
  have hsl : (system.advance id stage).tasks id = some stage := by
    simp [System.advance]
  have ho {other : ℕ} (hne : other ≠ id) :
      (system.advance id stage).tasks other = system.tasks other := by
    simp [System.advance, hne]
  have hro : (∃ other, system.tasks other = some .reopening) →
      ∃ other, (system.advance id stage).tasks other = some .reopening := by
    rintro ⟨other, ht⟩
    refine ⟨other, (ho ?_).trans ht⟩
    rintro rfl
    cases hpre _ ht
  -- a task with a reader after the step had one before it
  have hrd {other : ℕ} {otherStage : Stage Identity}
      (ht : (system.advance id stage).tasks other = some otherStage)
      (hot : (otherStage.reader || otherStage.reads) = true) :
      ∃ before, system.tasks other = some before ∧ (before.reader || before.reads) = true := by
    by_cases hid : other = id
    · subst hid
      rw [hsl] at ht
      cases ht
      obtain ⟨before, hol, hor⟩ := hreads hot
      exact ⟨before, hol, by simp [hor]⟩
    · exact ⟨otherStage, (ho hid).symm.trans ht, hot⟩
  refine ⟨?_, ?_, ?_, ?_, hinv.opened, ?_, ?_⟩
  · intro other otherStage ht hhd
    by_cases hid : other = id
    · subst hid
      rw [hsl] at ht
      cases ht
      rw [hwaits] at hhd
      cases hhd
    · exact hinv.holder ((ho hid).symm.trans ht) hhd
  · intro other otherStage ht
    by_cases hid : other = id
    · subst hid
      rw [hsl] at ht
      cases ht
      exact Stage.sound_of_waits hwaits
    · exact hinv.stages ((ho hid).symm.trans ht)
  · intro other otherStage ht hoth
    by_cases hid : other = id
    · subst hid
      rw [hsl] at ht
      cases ht
      obtain ⟨before, hol, hor⟩ := hreads (by simp [hoth])
      exact hinv.running hol hor
    · exact hinv.running ((ho hid).symm.trans ht) hoth
  · intro first second firstStage secondStage hfs hsn hfr hsr
    obtain ⟨_, hfb, hfh⟩ := hrd hfs hfr
    obtain ⟨_, hsb, hsh⟩ := hrd hsn hsr
    exact hinv.oneReader hfb hsb hfh hsh
  · intro hph
    exact ⟨(hinv.idle hph).1, (hinv.idle hph).2.imp_right hro⟩
  · intro hph hpp
    exact (hinv.plain hph hpp).imp_right hro

/-- A step that changes what the state lock protects, or the activity of the
guest. -/
lemma Sound.frame (hinv : Sound trace system) (htasks : next.tasks = system.tasks)
    (hcooperation : next.cooperation = system.cooperation)
    (hruns : next.state.readerRunning = system.state.readerRunning)
    (hstages : ∀ {id stage}, system.tasks id = some stage →
      stage.Sound (trace ++ [label]) next.state next.activity.admission next.probeReadiness)
    (hopen : Open (trace ++ [label]))
    (hidle : next.state.phase = .running ∨ next.state.phase = .initializing →
      Ended (trace ++ [label]) ∧ (next.activity.admission = true ∨
        ∃ id, system.tasks id = some .reopening))
    (hplain : next.state.phase ≠ .failed → next.state.prepare.any (·.idleRevision.isSome) = false →
      next.activity.admission = true ∨ ∃ id, system.tasks id = some .reopening) :
    Sound (trace ++ [label]) next := by
  refine ⟨?_, ?_, ?_, ?_, hopen, ?_, ?_⟩
  · rw [htasks, hcooperation]
    exact hinv.holder
  · rw [htasks]
    exact hstages
  · rw [htasks, hruns]
    exact hinv.running
  · rw [htasks]
    exact hinv.oneReader
  · rw [htasks]
    exact hidle
  · rw [htasks]
    exact hplain

lemma Sound.idle_stages (hinv : Sound trace system) (hphase : system.state.phase = .running ∨
      system.state.phase = .initializing) (htask : system.tasks id = some stage) :
    stage.Sound trace' state admission probeReadiness := by
  cases h : stage.holds with
  | false => exact Stage.sound_of_waits h
  | true =>
    rw [Stage.eq_reopening (hinv.stages htask) h hphase]
    trivial

lemma Sound.silent (hinv : Sound trace system)
    (htag : ∀ request, label ≠ some (.accepted request)) :
    Sound (trace ++ [label]) system :=
  hinv.frame rfl rfl rfl (fun ht => (hinv.stages ht).snoc htag)
    (hinv.opened.snoc htag)
    (fun hph => ⟨(hinv.idle hph).1.snoc htag, (hinv.idle hph).2⟩)
    hinv.plain

end Sound

/-! ## Every step keeps the invariant -/

/-- A preparation whose hook fails and is rolled back was asked for without an
idle revision. -/
def Careful (system : System Identity) : Option (Event Identity) → Prop
  | some .undone => system.state.prepare.any (·.idleRevision.isSome) = false
  | _ => True

lemma acceptPrepare_fresh [DecidableEq Identity]
    (htake : state.acceptPrepare activity request = .ok (.fresh accepted after)) :
    state.phase = .running ∧ accepted.phase = .preparing ∧
      accepted.readerRunning = state.readerRunning ∧ accepted.prepare = some request ∧
      (request.idleRevision = none → after = activity) := by
  unfold State.acceptPrepare at htake
  simp only [throw, throwThe, MonadExceptOf.throw, bind, Except.bind, pure, Except.pure] at htake
  split at htake
  · cases htake
  split at htake
  · cases htake
  split at htake
  · cases htake
  split at htake
  · split at htake <;> cases htake
  split at htake
  · cases htake
  rename_i hrd
  have hph : state.phase = .running := by
    by_contra ho
    exact hrd (.inl ho)
  cases hid : request.idleRevision with
  | none =>
    rw [hid] at htake
    cases htake
    exact ⟨hph, by simp, by simp, by simp, fun _ => rfl⟩
  | some revision =>
    rw [hid] at htake
    cases hqu : activity.quiesce revision with
    | error error =>
      simp only [hqu] at htake
      cases htake
    | ok quiesced =>
      simp only [hqu] at htake
      cases htake
      exact ⟨hph, by simp, by simp, by simp, by simp⟩

lemma checkAbort_proceed [DecidableEq Identity]
    (hcheck : state.checkAbort operationId identity revision = .ok (.proceed reopen)) :
    state.phase = .prepared ∧ reopen = state.prepare.any (·.idleRevision.isSome) := by
  unfold State.checkAbort at hcheck
  simp only [throw, throwThe, MonadExceptOf.throw, bind, Except.bind, pure, Except.pure] at hcheck
  split at hcheck
  · cases hcheck
  split at hcheck
  · cases hcheck
  split at hcheck
  · cases hcheck
  rename_i hrd
  cases hcheck
  refine ⟨?_, rfl⟩
  by_contra ho
  exact hrd (.inr ho)

lemma releasedBy_not_accepted (hook : Release) {A : Type} (result : Hooked A)
    (request : PrepareCheckpoint Identity) : releasedBy hook result ≠ some (.accepted request) := by
  cases result <;> simp [releasedBy]

lemma sound_start (identity : Identity) (probeReadiness active revision) :
    Sound [] (System.start identity probeReadiness active revision) where
  holder h := by cases h
  stages h := by cases h
  running h := by cases h
  oneReader h := by cases h
  opened := by simp [Open]
  idle _ := ⟨by simp [Ended], .inl rfl⟩
  plain _ _ := .inl rfl

section Step

variable [DecidableEq Identity] {trace : Trace Identity}
  {system next : System Identity} {label : Option (Event Identity)}

lemma Sound.step (hinv : Sound trace system) (hstep : Step system label next)
    (hcareful : Careful system label) : Sound (trace ++ [label]) next := by
  cases hstep with
  | @prepare id request state activity hfr hac =>
    obtain ⟨hph, hpr, hrd, hpp, hid⟩ := acceptPrepare_fresh hac
    have hen := (hinv.idle (.inl hph)).1
    have hjo : Sound trace (system.advance id (.preparing request.operationId)) :=
      hinv.join (by simp [hfr]) rfl (by simp [Stage.reader, Stage.reads])
    refine hjo.frame rfl rfl hrd ?_ (hen.accepted request) ?_ ?_
    · exact hjo.idle_stages (.inl hph)
    · simp [hpr]
    · intro _ hpl
      have hnn : request.idleRevision = none := by
        simpa [hpp] using hpl
      rw [hid hnn]
      exact (hjo.idle (.inl hph)).2
  | decline hac hol =>
    exact hinv.silent (by simp)
  | @enter id operationId ht hlk hph =>
    have hal : Alone system id := hinv.alone_of_free hlk
    refine hinv.proceed hal ht (by simp) rfl rfl rfl rfl ?_ ?_ (by simp) ?_
    · split <;> rfl
    · split <;> simp [Stage.reader]
    · split
      · exact ⟨hph, by simp⟩
      · exact ⟨hph, by simpa using ‹¬system.state.readerRunning = true›⟩
  | skip ht hlk hph | refuseAbort ht hlk hch hrf =>
    exact hinv.pass (hinv.alone_of_free hlk) ht (by simp) rfl rfl rfl
      (by simp) (by simp) (by simp) (by simp)
  | opened ht =>
    obtain ⟨hph, hid⟩ := hinv.stages ht
    exact hinv.proceed (hinv.alone_of_holds ht rfl) ht (by simp) rfl rfl
      rfl (hinv.holder ht rfl) rfl (fun _ => .inr hid) (by simp)
      ⟨hph, fun _ => hid⟩
  | unopened error ht =>
    refine hinv.change (hinv.alone_of_holds ht rfl) ht rfl ?_ ?_ ?_
      (.inl (by simp [State.failPreparation, State.mark, State.enter]))
      (by simp) ?_ ?_
    · rintro _ ⟨⟩
      exact ⟨hinv.holder ht rfl, rfl⟩
    · rintro _ ⟨⟩
      trivial
    · rintro _ ⟨⟩ hst
      cases hst
    · exact fun _ => ⟨hinv.opened.ended rfl, .inr rfl⟩
    · exact fun _ _ => .inr rfl
  | reopen ht =>
    refine hinv.change (hinv.alone_of_holds ht rfl) ht rfl (by simp)
      (by simp) (by simp) (.inl rfl) (by simp) ?_ ?_
    · exact fun hph => ⟨(hinv.idle hph).1.snoc (by simp), .inl rfl⟩
    · exact fun _ _ => .inl rfl
  | hooked ht =>
    have hal := hinv.alone_of_holds ht rfl
    obtain ⟨hph, hrd⟩ := hinv.stages ht
    refine hinv.change hal ht rfl ?_ ?_ ?_ (.inl (by simp [State.publishPrepared])) (by simp) ?_ ?_
    · rintro _ ⟨⟩
      exact ⟨hinv.holder ht rfl, rfl⟩
    · rintro _ ⟨⟩
      exact ⟨by simp [State.publishPrepared], by
        simpa [State.publishPrepared] using hrd⟩
    · rintro _ ⟨⟩ hst
      exact .inl hst
    · simp [State.publishPrepared]
    · intro _ hpl
      refine .inl (hinv.plain_admits hal (by simp [ht]) (by simp [hph]) ?_)
      simpa [State.publishPrepared] using hpl
  | unhooked error ht =>
    exact hinv.proceed (hinv.alone_of_holds ht rfl) ht (by simp) rfl rfl
      rfl (hinv.holder ht rfl) rfl .inl (by simp) (hinv.stages ht)
  | undo ht =>
    have hal := hinv.alone_of_holds ht rfl
    obtain ⟨hph, hrd⟩ := hinv.stages ht
    refine hinv.proceed hal ht (by simp) rfl rfl rfl (hinv.holder ht rfl)
      rfl .inl (by simp) ⟨hph, hrd, .inr ⟨rfl, hinv.opened.ended rfl, ?_⟩⟩
    exact hinv.plain_admits hal (by simp [ht]) (by simp [hph]) hcareful
  | undoFails rollback ht =>
    obtain ⟨hph, hrd⟩ := hinv.stages ht
    exact hinv.proceed (hinv.alone_of_holds ht rfl) ht (by simp) rfl rfl
      rfl (hinv.holder ht rfl) rfl .inl (by simp) ⟨hph, hrd, .inl rfl⟩
  | @keepReader id fresh operationId message reader phase ht hfr =>
    have hal := hinv.alone_of_holds ht rfl
    obtain ⟨hph, hrd, ha⟩ := hinv.stages ht
    have hne : fresh ≠ id := by
      rintro rfl
      rw [hfr] at ht
      cases ht
    have hfa : Sound (trace ++ [none]) (system.advance id (.failing message phase)) :=
      hinv.proceed hal ht (by simp) rfl rfl rfl (hinv.holder ht rfl) rfl
        nofun (by simp) (Stage.Sound.snoc ⟨hph, ha⟩ (by simp))
    cases reader with
    | false => exact hfa
    | true =>
      rw [spawnReader_advance hne]
      exact hfa.spawn (by simp [System.advance, hne, hfr]) operationId
        (hinv.readerless ht rfl rfl (by rintro _ ⟨⟩; rfl))
        (hal.not_opening rfl (by simp))
  | fail ht =>
    obtain ⟨hph, ha⟩ := hinv.stages ht
    have hal := hinv.alone_of_holds ht rfl
    refine hinv.change hal ht rfl (by simp) (by simp) (by simp)
      (.inl (by simp [State.failPreparation, State.mark, State.enter]))
      (by simp) ?_ ?_
    · intro hid
      obtain rfl | ⟨rfl, hen, had⟩ := ha
      · simp [State.failPreparation, State.mark, State.enter] at hid
      · exact ⟨hen.snoc (by simp), .inl had⟩
    · intro _ hpl
      refine .inl (hinv.plain_admits hal (by simp [ht]) (by simp [hph]) ?_)
      simpa [State.failPreparation, State.mark, State.enter] using hpl
  | @passReader id fresh operationId reader ht hfr =>
    have hal := hinv.alone_of_holds ht rfl
    have hne : fresh ≠ id := by
      rintro rfl
      rw [hfr] at ht
      cases ht
    have hlf : Sound (trace ++ [none]) (system.leave id) :=
      hinv.pass hal ht (by simp) rfl rfl rfl (by simp) (by simp) (by simp) (by simp)
    cases reader with
    | false => exact hlf
    | true =>
      rw [spawnReader_leave hne]
      exact hlf.spawn (by simp [System.leave, System.finish, hne, hfr])
        operationId (hinv.readerless ht rfl rfl (by simp))
        (hal.not_opening rfl (by simp))
  | hand outcome ht =>
    refine Sound.silent (hinv.join ?_ rfl fun _ => ⟨_, ht, rfl⟩) (by simp)
    simp [ht, Stage.holds]
  | reject ht hlk hph =>
    refine hinv.change (hinv.alone_of_free hlk) ht rfl (by simp)
      (by simp) (by simp) (.inr rfl) (by simp) ?_ ?_
    · simp [State.rejectHandoff, State.mark]
    · simp [State.rejectHandoff, State.mark]
  | restore ht hlk hph =>
    exact hinv.conclude ht hlk hph rfl rfl (by simp [Stage.Sound, State.beginRestore])
      (by simp [State.beginRestore]) (by simp [State.beginRestore])
  | resume ht hlk hph hot =>
    exact hinv.conclude ht hlk hph rfl rfl ⟨hph, hot⟩ (by simp [System.lock, System.advance, hph])
      rfl
  | lose ht hlk hph =>
    exact hinv.conclude ht hlk hph rfl rfl ⟨.inl hph, .inl rfl⟩
      (by simp [System.lock, System.advance, hph]) rfl
  | restored result ht =>
    have hph := hinv.stages ht
    refine hinv.proceed (hinv.alone_of_holds ht rfl) ht (by simp) rfl rfl
      rfl (hinv.holder ht rfl) rfl nofun (releasedBy_not_accepted _ _)
      ⟨.inr hph, ?_⟩
    cases result with
    | ok target => exact .inr (hinv.opened.ended rfl)
    | error error => exact .inl rfl
  | resumed result ht =>
    obtain ⟨hph, hot⟩ := hinv.stages ht
    refine hinv.proceed (hinv.alone_of_holds ht rfl) ht (by simp) rfl rfl
      rfl (hinv.holder ht rfl) rfl nofun (releasedBy_not_accepted _ _)
      ⟨.inl hph, ?_⟩
    cases result with
    | ok done => exact .inr (hinv.opened.ended rfl)
    | error error => exact .inl rfl
  | conclude ht =>
    obtain ⟨-, hen⟩ := hinv.stages ht
    refine hinv.change (hinv.alone_of_holds ht rfl) ht rfl (by simp)
      (by simp) (by simp) (.inl (by simp [State.conclude, State.mark]))
      (by simp) ?_ (fun _ _ => .inl rfl)
    intro hph
    refine ⟨Ended.snoc (hen.resolve_left fun hfl => ?_) (by simp), .inl rfl⟩
    simp [State.conclude, State.mark, hfl] at hph
  | abort operationId identity revision hfr =>
    refine Sound.silent (hinv.join ?_ rfl ?_) (by simp)
    · simp [hfr]
    · simp [Stage.reader, Stage.reads]
  | beginAbort ht hlk hch =>
    obtain ⟨hph, hre⟩ := checkAbort_proceed hch
    exact hinv.proceed (hinv.alone_of_free hlk) ht (by simp) rfl rfl rfl rfl
      rfl nofun (by simp) ⟨hph, hre⟩
  | rollback result ht =>
    obtain ⟨hph, hre⟩ := hinv.stages ht
    refine hinv.proceed (hinv.alone_of_holds ht rfl) ht (by simp) rfl rfl
      rfl (hinv.holder ht rfl) rfl nofun (releasedBy_not_accepted _ _)
      ⟨hph, hre, ?_⟩
    rintro rfl
    exact hinv.opened.ended rfl
  | @reopened id reopen released ht =>
    have hal := hinv.alone_of_holds ht rfl
    obtain ⟨hph, hre, hen⟩ := hinv.stages ht
    -- admission is closed only by a preparation with an idle revision
    have hpl (hid : reopen = false) : system.activity.admission = true :=
      hinv.plain_admits hal (by simp [ht]) (by simp [hph]) (hre.symm.trans hid)
    refine hinv.change hal ht rfl ?_ ?_ ?_ (.inl rfl) (by simp) ?_ ?_
    · rintro _ ⟨⟩
      exact ⟨hinv.holder ht rfl, rfl⟩
    · rintro _ ⟨⟩
      refine ⟨hph, fun hok => ⟨(hen hok).snoc (by simp), ?_⟩⟩
      subst hok
      cases reopen with
      | true => rfl
      | false => exact hpl rfl
    · rintro _ ⟨⟩ hst
      cases hst
    · simp [System.advance, hph]
    · intro _ hpp
      have hnn := hre.trans hpp
      simp [hnn, hpl hnn]
  | @settle id released ht =>
    have hal := hinv.alone_of_holds ht rfl
    obtain ⟨hph, ha⟩ := hinv.stages ht
    refine hinv.change hal ht rfl (by simp) (by simp) (by simp) ?_ (by simp) ?_ ?_
    · cases released <;>
        simp [State.settleAbort, State.mark, State.enter]
    · intro hid
      cases released with
      | ok done =>
        obtain ⟨hen, had⟩ := ha rfl
        exact ⟨hen.snoc (by simp), .inl had⟩
      | error error =>
        simp [State.settleAbort, State.mark, State.enter] at hid
    · intro _ hpl
      refine .inl (hinv.plain_admits hal (by simp [ht]) (by simp [hph]) ?_)
      cases released <;>
        simpa [State.settleAbort, State.mark, State.enter] using hpl
  | probeReady hph =>
    have hid := hinv.idle (.inr hph)
    refine hinv.frame rfl rfl (by simp [State.enter])
      (hinv.idle_stages (.inr hph)) (hinv.opened.snoc (by simp)) ?_ ?_
    · exact fun _ => ⟨hid.1.snoc (by simp), hid.2⟩
    · exact fun _ _ => hid.2
  | probeFailed hph =>
    refine hinv.frame rfl rfl (by simp [State.enter])
      (hinv.idle_stages hph.symm) (hinv.opened.snoc (by simp)) ?_ ?_
    · simp [State.enter]
    · simp [State.enter]
  | request requested =>
    refine hinv.frame rfl rfl (by simp) ?_ (hinv.opened.snoc (by simp)) ?_ ?_
    · intro id stage ht
      refine Stage.Sound.congr ?_ (publish_phase _) (publish_readerRunning _)
        (publish_prepare _) (publish_identity _)
      exact (hinv.stages ht).snoc (by simp)
    · intro hph
      have hid := hinv.idle (by simpa using hph)
      exact ⟨hid.1.snoc (by simp), hid.2⟩
    · intro hph hpl
      exact hinv.plain (by simpa using hph) (by simpa using hpl)
  | activity active revision =>
    exact hinv.frame rfl rfl rfl
      (fun ht => (hinv.stages ht).snoc (by simp))
      (hinv.opened.snoc (by simp))
      (fun hph => ⟨(hinv.idle hph).1.snoc (by simp), (hinv.idle hph).2⟩) hinv.plain

/-- A step of a run in which no preparation with an idle revision is rolled back
because its own hook failed. -/
def CarefulStep (system : System Identity) (label : Option (Event Identity))
    (next : System Identity) : Prop :=
  Step system label next ∧ Careful system label

lemma Sound.of_run
    (hrun : Run CarefulStep (System.start identity probeReadiness active revision) trace system) :
    Sound trace system := by
  induction hrun with
  | refl => exact sound_start identity probeReadiness active revision
  | snoc _ last ih => exact ih.step last.1 last.2

/-- Nothing is in progress but a reader that waits for its handoff. -/
def Quiet (system : System Identity) : Prop :=
  ∀ id stage, system.tasks id = some stage → ∃ operationId, stage = .reading operationId

/-- At most one reader is outstanding, and whenever nothing is in progress and
the guest runs, every accepted preparation has ended and requests are
admitted. -/
theorem preparations_undone {identity probeReadiness active revision}
    (hrun : Run CarefulStep (System.start identity probeReadiness active revision) trace system) :
    (∀ id other stage otherStage, system.tasks id = some stage →
      system.tasks other = some otherStage → stage.reader = true →
      otherStage.reader = true → id = other) ∧
    (Quiet system → system.state.phase = .running ∨ system.state.phase = .initializing →
      Ended trace ∧ system.activity.admission = true) := by
  have hinv := Sound.of_run hrun
  constructor
  · intro id other stage otherStage htask hother hread hrival
    exact hinv.oneReader htask hother (by simp [hread]) (by simp [hrival])
  · intro hquiet hphase
    obtain ⟨hended, hadm⟩ := hinv.idle hphase
    refine ⟨hended, hadm.resolve_right ?_⟩
    rintro ⟨id, hreopening⟩
    obtain ⟨_, hreading⟩ := hquiet id _ hreopening
    cases hreading

end Step

/-! ## Concrete runs -/

/-- A preparation that closes admission first. -/
def idlePrepare : PrepareCheckpoint Unit := ⟨some 1, (), "op", 1⟩

def guest : System Unit := .start () false 0 1

/-- The state once the preparation is accepted. -/
def acceptedState : State Unit where
  identity := ()
  revision := 2
  phase := .preparing
  checkpoint := some ⟨"op", .preparing, none⟩
  requestedCheckpoint := none
  probeEpoch := 2
  probePhase := .preparing
  prepare := some idlePrepare
  readerRunning := false

lemma quiet_of_reader {system : System Unit} (hone : system.tasks 0 = none)
    (hread : system.tasks 1 = some (.reading "op"))
    (hrest : ∀ id, system.tasks (id + 2) = none) : Quiet system := by
  intro id stage h
  match id with
  | 0 => cases hone.symm.trans h
  | 1 =>
    cases hread.symm.trans h
    exact ⟨"op", rfl⟩
  | id + 2 => cases (hrest id).symm.trans h

lemma idlePrepare_accepted : guest.state.acceptPrepare guest.activity idlePrepare =
      .ok (.fresh acceptedState ⟨0, 1, false⟩) :=
  rfl

/-- The hook of the preparation fails and is rolled back: the guest runs, and it
admits no request. -/
theorem failed_preparation_closes_admission :
    ∃ trace system, Run Step guest trace system ∧ Quiet system ∧
      system.state.phase = .running ∧ system.activity.admission = false := by
  have haccepted := Run.snoc (.refl guest)
    (@Step.prepare Unit _ guest 0 idlePrepare _ _ rfl idlePrepare_accepted)
  have hopening := haccepted.snoc (@Step.enter Unit _ _ 0 "op" rfl rfl rfl)
  have hhooking := hopening.snoc (@Step.opened Unit _ _ 0 "op" rfl)
  have hundoing := hhooking.snoc (@Step.unhooked Unit _ _ 0 "op" true "not ready" rfl)
  have hundone := hundoing.snoc (@Step.undo Unit _ _ 0 "op" "not ready" true rfl)
  have hfail := hundone.snoc (@Step.keepReader Unit _ _ 0 1 "op" "not ready" true .running rfl rfl)
  have hfailed := hfail.snoc (@Step.fail Unit _ _ 0 "not ready" .running rfl)
  exact ⟨_, _, hfailed, quiet_of_reader rfl rfl fun _ => rfl, rfl, rfl⟩

/-- The preparation succeeds, the backend does not start, and the abort releases
the guest and admits requests again. -/
theorem aborted_preparation_undone :
    ∃ trace system, Run CarefulStep guest trace system ∧ Quiet system ∧
      system.state.phase = .running ∧ some (.accepted idlePrepare) ∈ trace ∧
      Ended trace ∧ system.activity.admission = true := by
  have hstart : Run CarefulStep guest [] guest := .refl _
  have haccepted := hstart.snoc
    ⟨@Step.prepare Unit _ guest 0 idlePrepare _ _ rfl idlePrepare_accepted, trivial⟩
  have hopening := haccepted.snoc ⟨@Step.enter Unit _ _ 0 "op" rfl rfl rfl, trivial⟩
  have hhooking := hopening.snoc ⟨@Step.opened Unit _ _ 0 "op" rfl, trivial⟩
  have hpre := hhooking.snoc ⟨@Step.hooked Unit _ _ 0 "op" true rfl, trivial⟩
  have hreading := hpre.snoc ⟨@Step.passReader Unit _ _ 0 1 "op" true rfl rfl, trivial⟩
  have haborting := hreading.snoc ⟨@Step.abort Unit _ _ 0 "op" () 3 rfl, trivial⟩
  have hrolling := haborting.snoc ⟨@Step.beginAbort Unit _ _ 0 "op" () 3 true rfl rfl rfl, trivial⟩
  have hrolled := hrolling.snoc ⟨@Step.rollback Unit _ _ 0 true (.ok ()) rfl, trivial⟩
  have hsettling := hrolled.snoc ⟨@Step.reopened Unit _ _ 0 true (.ok ()) rfl, trivial⟩
  have hsettled := hsettling.snoc ⟨@Step.settle Unit _ _ 0 (.ok ()) rfl, trivial⟩
  obtain ⟨hended, hadm⟩ := (preparations_undone hsettled).2 (quiet_of_reader rfl rfl fun _ => rfl)
    (.inl rfl)
  exact ⟨_, _, hsettled, quiet_of_reader rfl rfl fun _ => rfl, rfl, by simp, hended, hadm⟩

end AgentDx.Execd
