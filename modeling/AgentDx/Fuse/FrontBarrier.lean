import AgentDx.Fuse.FrontWrite

/-!
# Barriers of the front write queue

A barrier is answered with success when its file has no error and none of its
writes up to the number of the barrier is held.  An acknowledged write leaves
the queue by finishing, by the release of its handle, or when a close empties
the queue.  The last case breaks the barrier: a retry may clear the error of a
retained write after the close has found the queue drained and before it empties
it.
-/

namespace AgentDx.Fuse

open Std Word Transition List ExtTreeMap

abbrev Trace := List (Option Event)

/-! ## What a trace says about a write -/

/-- The handle of the write was released after the write was submitted. -/
def Dropped (trace : Trace) (write : Write) : Prop :=
  ∃ earlier later inode handle last,
    trace = earlier ++ some (.released inode handle last) :: later ∧
      some (.submitted write) ∈ earlier ∧ releases inode handle last write = true

/-- The write has been executed, or dropped with its handle. -/
def Settled (trace : Trace) (write : Write) : Prop :=
  some (.finished write (.ok ())) ∈ trace ∨ Dropped trace write

/-- The write was acknowledged before the call was made. -/
def Before (trace : Trace) (call : Call) (write : Write) : Prop :=
  ∃ earlier later, trace = earlier ++ some (.called call) :: later ∧
    some (.admission write (.ok ())) ∈ earlier

section Traces

variable {trace : Trace} {label : Option Event} {write : Write} {call : Call}

lemma Dropped.snoc (hdropped : Dropped trace write) (label) : Dropped (trace ++ [label]) write := by
  obtain ⟨earlier, later, inode, handle, last, rfl, h⟩ := hdropped
  exact ⟨earlier, later ++ [label], inode, handle, last, by simp, h⟩

lemma Settled.snoc (hsettled : Settled trace write) (label) : Settled (trace ++ [label]) write := by
  rcases hsettled with hfn | hdr
  · exact .inl (mem_append_left _ hfn)
  · exact .inr (hdr.snoc label)

lemma Before.of_snoc (hpre : Before (trace ++ [label]) call write) :
    Before trace call write ∨ label = some (.called call) ∧
      some (.admission write (.ok ())) ∈ trace := by
  obtain ⟨earlier, later, heq, hac⟩ := hpre
  induction later using List.reverseRecOn with
  | nil =>
    obtain ⟨rfl, hl⟩ := append_inj' heq rfl
    exact .inr ⟨by simpa using hl, hac⟩
  | append_singleton later last _ =>
    rw [← cons_append, ← append_assoc] at heq
    obtain ⟨rfl, _⟩ := append_inj' heq rfl
    exact .inl ⟨earlier, later, rfl, hac⟩

lemma Before.acknowledged (hpre : Before trace call write) :
    some (.admission write (.ok ())) ∈ trace := by
  obtain ⟨earlier, later, rfl, h⟩ := hpre
  exact mem_append_left _ h

end Traces

/-! ## Held writes -/

/-- The writes the queue holds, the running one first. -/
def System.held (system : System) : List Entry :=
  system.worker.entry?.toList ++ system.state.entries

/-- An acknowledged write: settled, held with a number up to `through`, or given
up by a close that leaves the error of its file. -/
def Kept (trace : Trace) (system : System) (through : ℕ) (write : Write) : Prop :=
  Settled trace write ∨ (∃ entry ∈ system.held, entry.admission = false ∧ entry.write = write ∧
      entry.sequence ≤ through) ∨
    system.state.closed = true ∧ system.state.errors.contains write.inode = true

/-- A close empties the queue only of writes whose files have an error. -/
def Clears (system : System) : Option Event → Prop
  | some (.emptied _) => ∀ entry ∈ system.state.entries,
      entry.admission = false → system.state.errors.contains entry.write.inode = true
  | _ => True

def StepClears (limits : Limits) (system : System) (label : Option Event) (next : System) : Prop :=
  Step limits system label next ∧ Clears system label

section Steps

variable {limits : Limits} {trace : Trace} {system next : System}
variable {label : Option Event} {write : Write} {through : ℕ} {entry : Entry}

lemma held_idle (hwork : system.worker = .idle) : system.held = system.state.entries := by
  rw [System.held, hwork]
  rfl

lemma held_running (hwork : system.worker = .running entry) :
    system.held = entry :: system.state.entries := by
  rw [System.held, hwork]
  rfl

variable {state : State} {worker : Worker} {notices : List Notice}

lemma Moves.held_or_settled (hmoves : Moves limits system label state worker notices)
    (hclears : Clears system label) (hheld : entry ∈ system.held)
    (hadm : entry.admission = false) (hsub : some (.submitted entry.write) ∈ trace) :
    Settled (trace ++ [label]) entry.write ∨ entry ∈ worker.entry?.toList ++ state.entries ∨
      state.closed = true ∧ state.errors.contains entry.write.inode = true := by
  cases hmoves with
  | submit hw hsub =>
    refine .inr (.inl ?_)
    rcases mem_append.mp hheld with hrn | he
    · exact mem_append_left _ hrn
    · refine mem_append_right _ ?_
      cases hsub with
      | refused error => exact he
      | waiting | admitted => exact mem_append_left _ he
  | round hid hwk hrd =>
    rw [held_idle hid] at hheld
    exact .inr (.inl (mem_append_right _ ((State.rounded hrd).kept entry hheld hadm)))
  | @start taken rounded before after hid hrd hop hen =>
    rw [held_idle hid] at hheld
    have hkp := (State.rounded hrd).kept entry hheld hadm
    rw [hen] at hkp
    refine .inr (.inl ?_)
    simp only [Worker.entry?, Option.toList_some, singleton_append, mem_cons, mem_append] at hkp ⊢
    tauto
  | @finish running result hwk =>
    rw [held_running hwk] at hheld
    rcases result with error | ⟨⟩
    · exact .inr (.inl hheld)
    · rcases mem_cons.mp hheld with rfl | he
      · exact .inl (.inl (mem_append_right _ (mem_singleton_self _)))
      · exact .inr (.inl he)
  | register hm hop =>
    rw [State.recoverStart, if_neg (by simp [hop])]
    exact .inr (.inl hheld)
  | release inode handle last =>
    cases hrl : releases inode handle last entry.write with
    | true =>
      exact .inl (.inr ⟨trace, [], inode, handle, last, by simp, hsub, hrl⟩)
    | false =>
      refine .inr (.inl ?_)
      rcases mem_append.mp hheld with hrn | he
      · exact mem_append_left _ hrn
      · refine mem_append_right _ ?_
        rw [State.releaseHandle_entries]
        exact mem_filter.mpr ⟨he, by simp [hrl]⟩
  | empty hco =>
    rcases mem_append.mp hheld with hrn | he
    · exact .inr (.inl (mem_append_left _ hrn))
    · exact .inr (.inr ⟨rfl, hclears entry he hadm⟩)
  | _ => exact .inr (.inl hheld)

/-- A closed queue forgets the error of a file only when its last handle is
released. -/
lemma Moves.given_up (hmoves : Moves limits system label state worker notices)
    (hshut : system.state.closed = true) (herror : system.state.errors.contains write.inode = true)
    (hsub : some (.submitted write) ∈ trace) :
    Settled (trace ++ [label]) write ∨ state.closed = true ∧
      state.errors.contains write.inode = true := by
  cases hmoves with
  | submit hw hsub =>
    cases hsub with
    | refused error | waiting | admitted => exact .inr ⟨hshut, herror⟩
  | round hid hwk hrd =>
    have hro := State.rounded hrd
    refine .inr ⟨hro.closed.trans hshut, ?_⟩
    rw [hro.errors]
    exact herror
  | start hid hrd hop =>
    rw [(State.rounded hrd).closed, hshut] at hop
    cases hop
  | @finish running result hwk =>
    rcases result with error | ⟨⟩
    · refine .inr ⟨hshut, ?_⟩
      show (system.state.errors.insert _ _).contains _ = true
      rw [ExtTreeMap.contains_insert, herror, Bool.or_true]
    · exact .inr ⟨hshut, herror⟩
  | retry inode hop | register hm hop =>
    rw [hshut] at hop
    cases hop
  | release inode handle last =>
    cases hrl : releases inode handle last write with
    | true =>
      exact .inl (.inr ⟨trace, [], inode, handle, last, by simp, hsub, hrl⟩)
    | false =>
      refine .inr ⟨hshut, ?_⟩
      show (if last then system.state.errors.erase inode
        else system.state.errors).contains _ = true
      split
      next hls =>
        have ho : write.inode ≠ inode := by
          simp [releases, hls] at hrl
          exact hrl.2
        rw [contains_erase, herror, Bool.and_true]
        simpa using Ne.symm ho
      · exact herror
  | empty hcs => exact .inr ⟨rfl, herror⟩
  | _ => exact .inr ⟨hshut, herror⟩

lemma Kept.step (hkept : Kept trace system through write)
    (hstep : StepClears limits system label next) (hsub : some (.submitted write) ∈ trace) :
    Kept (trace ++ [label]) next through write := by
  rcases hstep.1.moves with ⟨_, _, _, _, _, _, hsa, hwk, _⟩ | ⟨notices, hmv, _⟩
  · rcases hkept with hst | hh | hgv
    · exact .inl (hst.snoc label)
    · refine .inr (.inl ?_)
      rw [System.held, hwk, hsa]
      exact hh
    · refine .inr (.inr ?_)
      rw [hsa]
      exact hgv
  · rcases hkept with hst | ⟨entry, hh, had, rfl, hsq⟩ | ⟨hcl, her⟩
    · exact .inl (hst.snoc label)
    · rcases hmv.held_or_settled hstep.2 hh had hsub with
        hst | hh | hgv
      · exact .inl hst
      · exact .inr (.inl ⟨entry, hh, had, rfl, hsq⟩)
      · exact .inr (.inr hgv)
    · rcases hmv.given_up hcl her hsub with hst | hgv
      · exact .inl hst
      · exact .inr (.inr hgv)

lemma Kept.mono (hkept : Kept trace system through write)
    (hle : through ≤ more) : Kept trace system more write := by
  rcases hkept with hst | ⟨entry, hh, had, hw, hsq⟩ | hgv
  · exact .inl hst
  · exact .inr (.inl ⟨entry, hh, had, hw, hsq.trans hle⟩)
  · exact .inr (.inr hgv)

/-- The worker holds the write the state calls active. -/
def RunsActive (system : System) : Prop :=
  ∀ entry, system.worker = .running entry → entry.admission = false ∧
    system.state.active = some (entry.write.inode, entry.sequence)

/-- No admitted write of the file up to this number is held, and if the queue is
closed the file has no error. -/
structure Quiet (system : System) (inode through : ℕ) : Prop where
  passed : ∀ entry ∈ system.held, entry.admission = false →
    entry.write.inode = inode → through < entry.sequence
  clear : system.state.closed = true → system.state.errors.contains inode = false

lemma Kept.settled (hkept : Kept trace system through write)
    (hquiet : Quiet system write.inode through) : Settled trace write := by
  rcases hkept with hst | ⟨entry, hh, had, rfl, hsq⟩ | ⟨hcl, her⟩
  · exact hst
  · have hps := hquiet.passed entry hh had rfl
    omega
  · rw [hquiet.clear hcl] at her
    cases her

lemma State.answer_eq_ok : state.answer inode = .ok () ↔ state.errors.contains inode = false := by
  rw [← isSome_getElem?_eq_contains, State.answer]
  cases state.errors[inode]? <;> simp

/-- A state that still has the admitted writes finds a file settled only if it
is quiet. -/
lemma quiet_of_passed (hruns : RunsActive system) (hactive : state.active = system.state.active)
    (hkept : ∀ entry ∈ system.state.entries, entry.admission = false → entry ∈ state.entries)
    (herrors : system.state.closed = true → system.state.errors.contains inode = false)
    (hrunning : ∀ sequence, state.active = some (inode, sequence) → through < sequence)
    (hpassed : ∀ entry ∈ state.entries, entry.write.inode = inode →
      through < entry.sequence) : Quiet system inode through := by
  refine ⟨fun entry hh had hin => ?_, herrors⟩
  rcases mem_append.mp hh with hh | he
  · cases hwk : system.worker with
    | running running =>
      rw [hwk] at hh
      obtain rfl : entry = running := by simpa [Worker.entry?] using hh
      apply hrunning
      rw [hactive, (hruns entry hwk).2, hin]
    | idle | stopped =>
      rw [hwk] at hh
      simp [Worker.entry?] at hh
  · exact hpassed entry (hkept entry he had) hin

lemma quiet_of_ready (hruns : RunsActive system) (hactive : state.active = system.state.active)
    (hkept : ∀ entry ∈ system.state.entries, entry.admission = false → entry ∈ state.entries)
    (herrors : system.state.closed = true → state.errors = system.state.errors)
    (hready : state.isReady waiter = true) (hanswer : state.answer waiter.inode = .ok ()) :
    Quiet system waiter.inode waiter.through := by
  have hcl := State.answer_eq_ok.mp hanswer
  simp only [State.isReady, hcl, Bool.false_or, Bool.and_eq_true,
    Bool.not_eq_true', State.activeUpTo, State.pendingUpTo, any_eq_false,
    decide_eq_true_eq, not_and, Nat.not_le] at hready
  refine quiet_of_passed hruns hactive hkept ?_ ?_ ?_
  · intro hco
    rw [← herrors hco]
    exact hcl
  · intro sequence hru
    have hnt := hready.1
    rw [hru] at hnt
    simpa using hnt
  · intro entry he hin
    exact hready.2 entry he hin

lemma quiet_of_waitCheck (hruns : RunsActive system)
    (hcheck : system.state.waitCheck (some inode) through = some (.ok ())) :
    Quiet system inode through := by
  unfold State.waitCheck at hcheck
  split at hcheck
  · cases hcheck
  next hnn =>
    have hcl : system.state.errors.contains inode = false := by
      have hab : system.state.errors[inode]? = none := hnn
      rw [← isSome_getElem?_eq_contains, hab]
      rfl
    dsimp only at hcheck
    split at hcheck
    · cases hcheck
    next hid =>
      simp only [Bool.or_eq_true, not_or, Bool.not_eq_true, any_eq_false,
        Bool.and_eq_true, decide_eq_true_eq, Option.all_some, not_and, Bool.not_eq_true'] at hid
      refine quiet_of_passed hruns rfl (fun _ he _ => he) (fun _ => hcl) ?_ ?_
      · intro sequence hru
        have hnt := hid.1
        rw [hru] at hnt
        simpa using hnt
      · intro entry he hin
        by_contra hle
        refine hid.2 entry he ⟨Nat.not_lt.mp hle, hin.symm⟩ ?_
        rw [hin]
        exact hcl

/-! ## Calls in progress -/

omit limits trace system next label write through entry in
lemma mem_readyFrom (hmem : recovery ∈ (readyFrom files recoveries).2.1 ∨
      recovery ∈ (readyFrom files recoveries).2.2) : recovery ∈ recoveries := by
  induction recoveries generalizing files with
  | nil => simp [readyFrom] at hmem
  | cons head rest ih =>
    unfold readyFrom at hmem
    split at hmem
    · rcases hmem with hmem | hmem
      · rcases mem_cons.mp hmem with rfl | hmem
        · exact mem_cons_self
        · exact mem_cons_of_mem _ (ih (.inl hmem))
      · exact mem_cons_of_mem _ (ih (.inr hmem))
    · rcases hmem with hmem | hmem
      · exact mem_cons_of_mem _ (ih (.inl hmem))
      · rcases mem_cons.mp hmem with rfl | hmem
        · exact mem_cons_self
        · exact mem_cons_of_mem _ (ih (.inr hmem))

/-- The recovery a notice answers. -/
def Notice.call? : Notice → Option Call
  | .ready call _ _ => some call
  | .admission _ _ => none

/-- The call has been made and not been answered. -/
inductive System.Pending (system : System) (call : Call) : Prop where
  | waiting {stage} (hmem : (call, stage) ∈ system.waits)
  | gated {recovery} (hmem : recovery ∈ system.gates.recoveries) (hcall : recovery.call = call)
  | starting {recovery} (hmem : recovery ∈ system.starting) (hcall : recovery.call = call)
  | registered {waiter} (hmem : waiter ∈ system.state.waiters) (hcall : waiter.call = call)
  | noticed {notice} (hmem : notice ∈ system.outbox) (hcall : notice.call? = some call)

variable {call : Call}

lemma Step.recoveries (hstep : Step limits system label next)
    (hmem : recovery ∈ next.gates.recoveries ∨ recovery ∈ next.starting) :
    recovery ∈ system.gates.recoveries ∨ recovery ∈ system.starting ∨
      label = some (.called recovery.call) := by
  cases hstep with
  | @recover inode closing gates ready hcn hrc =>
    obtain ⟨rfl, rfl⟩ := Prod.mk.inj hrc
    have hfr : recovery ∈ system.starting ∨ recovery ∈
        system.gates.recoveries ++ [⟨inode, system.nextCall⟩] := by
      rcases hmem with hmem | hmem
      · exact .inr (mem_readyFrom (.inl hmem))
      · rcases mem_append.mp hmem with hmem | hmem
        · exact .inl hmem
        · exact .inr (mem_readyFrom (.inr hmem))
    rcases hfr with hmem | hmem
    · exact .inr (.inl hmem)
    · rcases mem_append.mp hmem with hmem | hmem
      · exact .inl hmem
      · rw [mem_singleton.mp hmem]
        exact .inr (.inr rfl)
  | @recoverStart before after started state notices hsa hin =>
    rcases hmem with hmem | hmem
    · exact .inl hmem
    · refine .inr (.inl ?_)
      rw [hsa]
      rcases mem_append.mp hmem with hmem | hmem
      · exact mem_append_left _ hmem
      · exact mem_append_right _ (mem_cons_of_mem _ hmem)
  | @drop before after guarded gates ready hgu hdr =>
    obtain ⟨rfl, rfl⟩ := Prod.mk.inj hdr
    have heq : (system.gates.release guarded).recoveries = system.gates.recoveries := by
      unfold GateState.release
      split <;> rfl
    rcases hmem with hmem | hmem
    · have hfr := mem_readyFrom (.inl hmem)
      rw [heq] at hfr
      exact .inl hfr
    · rcases mem_append.mp hmem with hmem | hmem
      · exact .inr (.inl hmem)
      · have hfr := mem_readyFrom (.inr hmem)
        rw [heq] at hfr
        exact .inl hfr
  | _ =>
    rcases hmem with hmem | hmem
    · exact .inl hmem
    · exact .inr (.inl hmem)

/-- Waiters are registered by recoveries that start, for all numbers given out
so far. -/
lemma Moves.waiters (hmoves : Moves limits system label state worker notices)
    (hmem : waiter ∈ state.waiters) :
    waiter ∈ system.state.waiters ∨ ∃ recovery ∈ system.starting, recovery.call = waiter.call ∧
        waiter.through = system.state.nextSequence := by
  cases hmoves with
  | submit hw hsb =>
    cases hsb with
    | refused error | waiting | admitted => exact .inl hmem
  | round hid hwk hrd | start hid hrd =>
    exact .inl ((State.rounded hrd).waiters waiter hmem)
  | @finish running result hwk =>
    rcases result with error | ⟨⟩
    · exact .inl hmem
    · exact .inl hmem
  | @register recovery hrc hop =>
    rw [State.recoverStart, if_neg (by simp [hop])] at hmem
    rcases mem_append.mp (mem_filter.mp hmem).1 with hmem | hmem
    · exact .inl hmem
    · rw [mem_singleton.mp hmem]
      exact .inr ⟨recovery, hrc, rfl, rfl⟩
  | empty hcl => exact .inl (mem_filter.mp hmem).1
  | _ => exact .inl hmem

lemma Step.waits (hstep : Step limits system label next) (hmem : (call, stage) ∈ next.waits) :
    (call, stage) ∈ system.waits ∨
      ((∃ retry, stage = .entering retry) ∧ label = some (.called call) ∧
        call.id = system.nextCall) ∨ stage = .watching system.state.nextSequence ∧
        ∃ retry, (call, .entering retry) ∈ system.waits := by
  cases hstep with
  | @waitCall called retry hcl =>
    rcases mem_append.mp hmem with hmem | hmem
    · exact .inl hmem
    · cases mem_singleton.mp hmem
      exact .inr (.inl ⟨⟨retry, rfl⟩, rfl, hcl⟩)
  | waitRefused hwa hbg | waitReturn hwa hch =>
    rw [hwa]
    refine .inl ?_
    rcases mem_append.mp hmem with hmem | hmem
    · exact mem_append_left _ hmem
    · exact mem_append_right _ (mem_cons_of_mem _ hmem)
  | @waitBegin before after called retry state through hwa hbg =>
    rw [hwa]
    rcases mem_append.mp hmem with hmem | hmem
    · exact .inl (mem_append_left _ hmem)
    · rcases mem_cons.mp hmem with heq | hmem
      · cases heq
        obtain ⟨_, rfl, _⟩ := State.waitBegin_eq_ok hbg
        exact .inr (.inr ⟨rfl, retry, by simp⟩)
      · exact .inl (mem_append_right _ (mem_cons_of_mem _ hmem))
  | _ => exact .inl hmem

/-! ## New notices -/

/-- Why a callback is about to be called. -/
inductive Announced (system next : System) (label : Option Event) : Notice → Prop where
  | refused {write error} : Announced system next label (.admission write (.error error))
  | admitted {entry : Entry} (hheld : entry ∈ next.held)
      (hadmitted : entry.admission = false) :
      Announced system next label (.admission entry.write (.ok ()))
  | failed {call guarded error}
      (hcall : system.Pending call ∨ label = some (.called call) ∧ call.id = system.nextCall) :
      Announced system next label (.ready call guarded (.error error))
  | settled {waiter} (hwaiter : waiter ∈ system.state.waiters ∨
        ∃ recovery ∈ system.starting, recovery.call = waiter.call ∧
          waiter.through = system.state.nextSequence)
      (hquiet : Quiet system waiter.inode waiter.through) :
      Announced system next label (.ready waiter.call (some waiter.inode) (.ok ()))

lemma announced_waiter (hwait : waiter ∈ system.state.waiters ∨
      ∃ recovery ∈ system.starting, recovery.call = waiter.call ∧
        waiter.through = system.state.nextSequence)
    (hquiet : state.answer waiter.inode = .ok () → Quiet system waiter.inode waiter.through) :
    Announced system next label (waiter.notice state) := by
  unfold Waiter.notice
  cases han : state.answer waiter.inode with
  | ok _ => exact .settled hwait (hquiet han)
  | error error =>
    refine .failed (.inl ?_)
    rcases hwait with hm | ⟨recovery, hm, hcl, _⟩
    · exact .registered hm rfl
    · exact .starting hm hcl

lemma announced_round {state : State} (hruns : RunsActive system)
    (hround : system.state.round limits = (state, notices))
    (hents : ∀ entry ∈ state.entries, entry.admission = false →
      .admission entry.write (.ok ()) ∈ notices → entry ∈ next.held)
    (hmem : notice ∈ notices) : Announced system next label notice := by
  have hro := State.rounded hround
  rcases hro.callbacks notice hmem with ⟨entry, _, error, rfl⟩ |
    ⟨entry, he, had, rfl⟩ | ⟨waiter, hwt, hry, rfl⟩
  · exact .refused
  · exact .admitted (hents entry he had hmem) had
  · refine announced_waiter (.inl hwt) fun han => ?_
    exact quiet_of_ready hruns hro.active hro.kept (fun _ => hro.errors) hry han

omit limits trace system next label write through entry call in
lemma round_closing {limits} {state : State} {next write}
    (hround : state.round limits = (next, notices)) (hshut : state.closing = true) :
    .admission write (.ok ()) ∉ notices := by
  obtain ⟨rfl, rfl⟩ := Prod.mk.inj hround
  have hrf : ∀ {entries blocked bytes admittedBytes},
      .admission write (.ok ()) ∉ (admissionsFrom limits state.refusal entries
        blocked bytes admittedBytes).callbacks := by
    intro entries
    induction entries with
    | nil => simp [admissionsFrom]
    | cons head rest ih =>
      intro blocked bytes admittedBytes
      unfold admissionsFrom
      have hre : state.refusal head.write.inode = some eio := by
        simp [State.refusal, hshut]
      rw [hre]
      split
      · exact ih
      · simp [Scan.call, ih]
  intro hm
  rcases mem_append.mp hm with hm | hm
  · exact hrf hm
  · obtain ⟨waiter, _, _, heq⟩ := mem_readyWaiters.mp hm
    cases heq

lemma Moves.announced (hmoves : Moves limits system label next.state next.worker notices)
    (hruns : RunsActive system)
    (hclosing : system.closes ≠ [] → system.state.closing = true) (hmem : notice ∈ notices) :
    Announced system next label notice := by
  generalize hst : next.state = state at hmoves
  generalize hwk : next.worker = worker at hmoves
  cases hmoves with
  | @submit write _ _ hw hsb =>
    cases hsb with
    | refused error =>
      rw [mem_singleton.mp hmem]
      exact .refused
    | waiting => cases hmem
    | admitted =>
      rw [mem_singleton.mp hmem]
      refine @Announced.admitted _ _ _
        ⟨saturatingAdd system.state.nextSequence 1, write, false⟩ ?_ rfl
      rw [System.held, hst]
      exact mem_append_right _ (mem_append_right _ (mem_singleton_self _))
  | round hid _ hrd =>
    refine announced_round hruns hrd (fun entry he _ _ => ?_) hmem
    rw [System.held, hst]
    exact mem_append_right _ he
  | refuse hca =>
    rw [mem_singleton.mp hmem]
    exact .failed (.inr ⟨rfl, hca⟩)
  | reject hrc =>
    rw [mem_singleton.mp hmem]
    exact .failed (.inl (.starting hrc rfl))
  | @register recovery hrc hop =>
    rw [State.recoverStart, if_neg (by simp [hop])] at hmem
    obtain ⟨waiter, hwt, hry, rfl⟩ := mem_readyWaiters.mp hmem
    refine announced_waiter ?_ fun han => ?_
    · rcases mem_append.mp hwt with hwt | hwt
      · exact .inl hwt
      · rw [mem_singleton.mp hwt]
        exact .inr ⟨recovery, hrc, rfl, rfl⟩
    · refine quiet_of_ready hruns ?_ ?_ ?_ hry han
      · rfl
      · exact fun _ he _ => he
      · intro hco
        rw [hco] at hop
        cases hop
  | release inode handle last =>
    rw [State.releaseHandle_callbacks] at hmem
    obtain ⟨entry, _, rfl⟩ := mem_map.mp hmem
    exact .refused
  | empty hcs =>
    refine announced_round hruns rfl (fun entry _ _ had => ?_) hmem
    exact absurd had (round_closing rfl (hclosing hcs))
  | _ => cases hmem

/-! ## The invariant of the barriers -/

/-- What a barrier waits for: the writes of its file that were acknowledged
before it. -/
def Awaits (trace : Trace) (system : System) (call : Call) (through : ℕ) : Prop :=
  ∀ write, call.inode = some write.inode → Before trace call write → Kept trace system through write

/-- The barrier may report success. -/
def Settles (trace : Trace) (call : Call) : Prop :=
  ∀ write, call.inode = some write.inode → Before trace call write → Settled trace write

structure Guarded (trace : Trace) (system : System) : Prop where
  runs : RunsActive system
  counts : system.state.nextSequence < Word.size
  closing : system.closes ≠ [] → system.state.closing = true
  fresh : ∀ call, system.Pending call → call.id < system.nextCall
  numbered : ∀ entry ∈ system.held,
    entry.sequence ≤ system.state.nextSequence ∧ some (.submitted entry.write) ∈ trace
  acknowledged : ∀ write, some (.admission write (.ok ())) ∈ trace ∨
      .admission write (.ok ()) ∈ system.outbox →
    some (.submitted write) ∈ trace ∧ Kept trace system system.state.nextSequence write
  waiters : ∀ waiter ∈ system.state.waiters, Awaits trace system waiter.call waiter.through
  watching : ∀ call through, (call, .watching through) ∈ system.waits →
    Awaits trace system call through
  answers : ∀ call guarded, .ready call guarded (.ok ()) ∈ system.outbox → Settles trace call

lemma Moves.nextSequence (hmoves : Moves limits system label state worker notices)
    (hnum : system.state.nextSequence < Word.size) :
    system.state.nextSequence ≤ state.nextSequence ∧ state.nextSequence < Word.size := by
  have hgr : system.state.nextSequence ≤ saturatingAdd system.state.nextSequence 1 :=
    le_min (Nat.le_succ _) (Nat.le_pred_of_lt hnum)
  have hbd := saturatingAdd_lt system.state.nextSequence 1
  cases hmoves with
  | submit hw hsb =>
    cases hsb with
    | refused error => exact ⟨le_rfl, hnum⟩
    | waiting | admitted => exact ⟨hgr, hbd⟩
  | round hid hwk hrd =>
    rw [(State.rounded hrd).nextSequence]
    exact ⟨le_rfl, hnum⟩
  | start hid hrd =>
    show _ ≤ State.nextSequence _ ∧ State.nextSequence _ < _
    rw [(State.rounded hrd).nextSequence]
    exact ⟨le_rfl, hnum⟩
  | @finish running result hwk =>
    rcases result with error | ⟨⟩
    · exact ⟨le_rfl, hnum⟩
    · exact ⟨le_rfl, hnum⟩
  | register hm hop =>
    rw [State.recoverStart, if_neg (by simp [hop])]
    exact ⟨le_rfl, hnum⟩
  | _ => exact ⟨le_rfl, hnum⟩

lemma Moves.origin (hmoves : Moves limits system label state worker notices)
    (hmem : entry ∈ worker.entry?.toList ++ state.entries) :
    (∃ held ∈ system.held, held.write = entry.write ∧ held.sequence = entry.sequence) ∨
    label = some (.submitted entry.write) ∧ entry.sequence = state.nextSequence := by
  cases hmoves with
  | @submit write _ _ hw hsb =>
    have hrc : ∀ admission, entry ∈ system.worker.entry?.toList ++
        (system.state.recordEntry write admission).entries →
        (∃ held ∈ system.held, held.write = entry.write ∧ held.sequence = entry.sequence) ∨
        some (.submitted write) = some (Event.submitted entry.write) ∧
          entry.sequence = saturatingAdd system.state.nextSequence 1 := by
      intro admission hmem
      rcases mem_append.mp hmem with hrn | he
      · exact .inl ⟨entry, mem_append_left _ hrn, rfl, rfl⟩
      · rcases mem_append.mp he with he | he
        · exact .inl ⟨entry, mem_append_right _ he, rfl, rfl⟩
        · rw [mem_singleton.mp he]
          exact .inr ⟨rfl, rfl⟩
    cases hsb with
    | refused error => exact .inl ⟨entry, hmem, rfl, rfl⟩
    | waiting => exact hrc true hmem
    | admitted => exact hrc false hmem
  | round hid hwk hrd =>
    rw [hwk] at hmem
    rw [held_idle hid]
    exact .inl ((State.rounded hrd).origin entry hmem)
  | start hid hrd hop hen =>
    rw [held_idle hid]
    refine .inl ((State.rounded hrd).origin entry ?_)
    rw [hen]
    simp only [Worker.entry?, Option.toList_some, singleton_append, mem_cons, mem_append] at hmem ⊢
    tauto
  | @finish running result hwk =>
    rw [held_running hwk]
    rcases result with error | ⟨⟩
    · exact .inl ⟨entry, hmem, rfl, rfl⟩
    · exact .inl ⟨entry, mem_cons_of_mem _ hmem, rfl, rfl⟩
  | register hre hop =>
    rw [State.recoverStart, if_neg (by simp [hop])] at hmem
    exact .inl ⟨entry, hmem, rfl, rfl⟩
  | release inode handle last =>
    rcases mem_append.mp hmem with hrn | he
    · exact .inl ⟨entry, mem_append_left _ hrn, rfl, rfl⟩
    · rw [State.releaseHandle_entries] at he
      exact .inl ⟨entry, mem_append_right _ (mem_filter.mp he).1, rfl, rfl⟩
  | empty hcl =>
    rcases mem_append.mp hmem with hrn | he
    · exact .inl ⟨entry, mem_append_left _ hrn, rfl, rfl⟩
    · cases he
  | _ => exact .inl ⟨entry, hmem, rfl, rfl⟩

lemma Moves.runs (hmoves : Moves limits system label next.state next.worker notices)
    (hruns : RunsActive system) : RunsActive next := by
  generalize hst : next.state = state at hmoves
  generalize hwk : next.worker = worker at hmoves
  have heq : ∀ {state : State}, state.active = system.state.active →
      ∀ entry, system.worker = .running entry → entry.admission = false ∧
        state.active = some (entry.write.inode, entry.sequence) := by
    intro state hac entry hrn
    rw [hac]
    exact hruns entry hrn
  unfold RunsActive
  rw [hst, hwk]
  cases hmoves with
  | submit hw hsb =>
    cases hsb with
    | refused error => exact hruns
    | waiting | admitted => exact heq rfl
  | round hid hnn hrd =>
    intro entry hrn
    rw [hrn] at hnn
    cases hnn
  | start hid hrd hop hen had =>
    intro entry hrn
    cases hrn
    exact ⟨had, rfl⟩
  | finish result hrn =>
    intro entry hid
    cases hid
  | register hm hop =>
    rw [State.recoverStart, if_neg (by simp [hop])]
    exact heq rfl
  | _ => exact heq rfl

/-- A call of the next state was in progress before or has just been made. -/
lemma Step.pending (hstep : Step limits system label next) (hruns : RunsActive system)
    (hshut : system.closes ≠ [] → system.state.closing = true) (hpend : next.Pending call) :
    system.Pending call ∨ label = some (.called call) := by
  cases hpend with
  | waiting hm =>
    rcases hstep.waits hm with hm | ⟨_, hl, _⟩ | ⟨_, retry, hm⟩
    · exact .inl (.waiting hm)
    · exact .inr hl
    · exact .inl (.waiting hm)
  | gated hm hcl =>
    rcases hstep.recoveries (.inl hm) with hm | hm | hl
    · exact .inl (.gated hm hcl)
    · exact .inl (.starting hm hcl)
    · exact .inr (hcl ▸ hl)
  | starting hm hcl =>
    rcases hstep.recoveries (.inr hm) with hm | hm | hl
    · exact .inl (.gated hm hcl)
    · exact .inl (.starting hm hcl)
    · exact .inr (hcl ▸ hl)
  | registered hm hcl =>
    rcases hstep.moves with ⟨_, _, _, _, _, _, hsa, _⟩ | ⟨_, hmv, _⟩
    · rw [hsa] at hm
      exact .inl (.registered hm hcl)
    · rcases hmv.waiters hm with hm | ⟨recovery, hm, heq, _⟩
      · exact .inl (.registered hm hcl)
      · exact .inl (.starting hm (heq.trans hcl))
  | noticed hm hcl =>
    rcases hstep.moves with ⟨before, notice, after, hb, ha, _⟩ | ⟨notices, hmv, hot, _⟩
    · refine .inl (.noticed ?_ hcl)
      rw [hb]
      rw [ha] at hm
      rcases mem_append.mp hm with hm | hm
      · exact mem_append_left _ hm
      · exact mem_append_right _ (mem_cons_of_mem _ hm)
    · rw [hot] at hm
      rcases mem_append.mp hm with hm | hm
      · exact .inl (.noticed hm hcl)
      · cases hmv.announced hruns hshut hm with
        | refused | admitted => cases hcl
        | failed hre =>
          cases hcl
          rcases hre with hpend | ⟨hl, _⟩
          · exact .inl hpend
          · exact .inr hl
        | settled hwt =>
          cases hcl
          rcases hwt with hm | ⟨recovery, hm, heq, _⟩
          · exact .inl (.registered hm rfl)
          · exact .inl (.starting hm heq)

lemma Moves.closing (hmoves : Moves limits system label state worker notices)
    (hshut : system.state.closing = true) : state.closing = true := by
  cases hmoves with
  | submit hw hsb =>
    cases hsb with
    | refused error | waiting | admitted => exact hshut
  | round hid hwk hrd | start hid hrd =>
    exact (State.rounded hrd).closing.trans hshut
  | @finish running result hwk =>
    rcases result with error | ⟨⟩
    · exact hshut
    · exact hshut
  | register hm hop =>
    rw [State.recoverStart, if_neg (by simp [hop])]
    exact hshut
  | close => rfl
  | _ => exact hshut

lemma Step.closing (hstep : Step limits system label next)
    (hshut : system.closes ≠ [] → system.state.closing = true)
    (hcloses : next.closes ≠ []) : next.state.closing = true := by
  have hmo : system.state.closing = true → next.state.closing = true := by
    intro han
    rcases hstep.moves with ⟨_, _, _, _, _, _, hsa, _⟩ | ⟨_, hmv, _⟩
    · rw [hsa]
      exact han
    · exact hmv.closing han
  cases hstep with
  | closeCall hop => rfl
  | closeWait hbg => exact hmo (hshut (by rw [hbg]; simp))
  | closeDrained hdr => exact hmo (hshut (by rw [hdr]; simp))
  | closeFinish hdi => exact hmo (hshut (by rw [hdi]; simp))
  | _ => exact hmo (hshut hcloses)

lemma Step.admission (hstep : Step limits system (some (.admission write result)) next) :
    .admission write result ∈ system.outbox := by
  rcases hstep.moves with ⟨before, notice, after, hot, _, hl, _⟩ | ⟨notices, hmv, _⟩
  · rw [hot]
    cases notice with
    | admission noticed answer =>
      cases hl
      exact mem_append_right _ mem_cons_self
    | ready => cases hl
  · generalize next.state = state at hmv
    generalize next.worker = worker at hmv
    cases hmv with
    | rest hl => cases hl

lemma Awaits.step (hawaits : Awaits trace system call through) (hguard : Guarded trace system)
    (hstep : StepClears limits system label next) (hcall : label ≠ some (.called call)) :
    Awaits (trace ++ [label]) next call through := by
  intro write hin hb
  rcases hb.of_snoc with hb | ⟨hl, _⟩
  · obtain ⟨hsb, _⟩ := hguard.acknowledged write (.inl hb.acknowledged)
    exact (hawaits write hin hb).step hstep hsb
  · exact absurd hl hcall

lemma Settles.snoc (hsettles : Settles trace call) (hcall : label ≠ some (.called call)) :
    Settles (trace ++ [label]) call := by
  intro write hin hb
  rcases hb.of_snoc with hb | ⟨hl, _⟩
  · exact (hsettles write hin hb).snoc label
  · exact absurd hl hcall

lemma Awaits.settles (hawaits : Awaits trace system call through)
    (hcall : call.inode = some inode) (hquiet : Quiet system inode through) :
    Settles trace call := by
  intro write hin hb
  obtain rfl : inode = write.inode := by
    rw [hcall] at hin
    exact Option.some.inj hin
  exact (hawaits write hin hb).settled hquiet

variable (hguard : Guarded trace system)

include hguard

lemma Guarded.called (hstep : Step limits system label next) (hpend : system.Pending call) :
    label ≠ some (.called call) := by
  intro hl
  have hf := hguard.fresh call hpend
  rcases hstep.nextCall with ⟨made, hmd, hid, _⟩ | ⟨hnn, _⟩
  · rw [hmd] at hl
    cases hl
    omega
  · exact hnn call hl

lemma Guarded.awaits : Awaits trace system call system.state.nextSequence :=
  fun write _ h =>
    (hguard.acknowledged write (.inl h.acknowledged)).2

lemma Guarded.numbers (hstep : Step limits system label next) :
    system.state.nextSequence ≤ next.state.nextSequence ∧ next.state.nextSequence < Word.size := by
  rcases hstep.moves with ⟨_, _, _, _, _, _, hsa, _⟩ | ⟨_, hmv, _⟩
  · rw [hsa]
    exact ⟨le_rfl, hguard.counts⟩
  · exact hmv.nextSequence hguard.counts

lemma Guarded.numbered_step (hstep : Step limits system label next) (hheld : entry ∈ next.held) :
    entry.sequence ≤ next.state.nextSequence ∧
      some (.submitted entry.write) ∈ trace ++ [label] := by
  have hnm := hguard.numbers hstep
  have hol : ∀ held ∈ system.held, held.write = entry.write → held.sequence = entry.sequence →
      entry.sequence ≤ next.state.nextSequence ∧
        some (.submitted entry.write) ∈ trace ++ [label] := by
    intro held hm hw hsq
    obtain ⟨hle, hsb⟩ := hguard.numbered held hm
    rw [hw] at hsb
    exact ⟨by omega, mem_append_left _ hsb⟩
  rcases hstep.moves with ⟨_, _, _, _, _, _, hsa, hwk, _⟩ | ⟨_, hmv, _⟩
  · rw [System.held, hsa, hwk] at hheld
    exact hol entry hheld rfl rfl
  · rcases hmv.origin hheld with ⟨held, hm, hw, hsq⟩ | ⟨hl, hsq⟩
    · exact hol held hm hw hsq
    · exact ⟨hsq.le, by simp [hl]⟩

omit hguard

lemma Step.outbox (hstep : Step limits system label next) (hruns : RunsActive system)
    (hshut : system.closes ≠ [] → system.state.closing = true) (hmem : notice ∈ next.outbox) :
    notice ∈ system.outbox ∨ Announced system next label notice := by
  rcases hstep.moves with ⟨before, delivered, after, hb, ha, _⟩ | ⟨notices, hmv, hot, _⟩
  · rw [ha] at hmem
    rw [hb]
    refine .inl ?_
    rcases mem_append.mp hmem with hmem | hmem
    · exact mem_append_left _ hmem
    · exact mem_append_right _ (mem_cons_of_mem _ hmem)
  · rw [hot] at hmem
    rcases mem_append.mp hmem with hmem | hmem
    · exact .inl hmem
    · exact .inr (hmv.announced hruns hshut hmem)

lemma Guarded.step (hguard : Guarded trace system) (hstep : StepClears limits system label next) :
    Guarded (trace ++ [label]) next := by
  have hnm := hguard.numbers hstep.1
  have hkp : ∀ write, some (.admission write (.ok ())) ∈ trace ∨
      .admission write (.ok ()) ∈ system.outbox → some (.submitted write) ∈ trace ++ [label] ∧
        Kept (trace ++ [label]) next next.state.nextSequence write := by
    intro write hac
    obtain ⟨hsb, hkp⟩ := hguard.acknowledged write hac
    exact ⟨mem_append_left _ hsb, (hkp.step hstep hsb).mono hnm.1⟩
  have haw : ∀ {call : Call} {through : ℕ}, system.Pending call → Awaits trace system call through →
      Awaits (trace ++ [label]) next call through :=
    fun hpn haw =>
      haw.step hguard hstep (hguard.called hstep.1 hpn)
  refine ⟨?_, hnm.2, hstep.1.closing hguard.closing, ?_,
    fun entry => hguard.numbered_step hstep.1, ?_, ?_, ?_, ?_⟩
  · rcases hstep.1.moves with ⟨_, _, _, _, _, _, hsa, hwk, _⟩ | ⟨_, hmv, _⟩
    · unfold RunsActive
      rw [hsa, hwk]
      exact hguard.runs
    · exact hmv.runs hguard.runs
  · intro call hpn
    rcases hstep.1.pending hguard.runs hguard.closing hpn with
      hpn | hl
    · have hf := hguard.fresh call hpn
      rcases hstep.1.nextCall with ⟨_, _, _, hnx⟩ | ⟨_, hnx⟩ <;> omega
    · rcases hstep.1.nextCall with ⟨made, hmd, hid, hnx⟩ | ⟨hnn, _⟩
      · rw [hmd] at hl
        cases hl
        omega
      · exact absurd hl (hnn call)
  · intro write hac
    rcases hac with hac | hnt
    · rcases mem_append.mp hac with hac | hac
      · exact hkp write (.inl hac)
      · obtain rfl := mem_singleton.mp hac
        exact hkp write (.inr hstep.1.admission)
    · rcases hstep.1.outbox hguard.runs hguard.closing hnt with
        hnt | han
      · exact hkp write (.inr hnt)
      · cases han with
        | admitted hh had =>
          obtain ⟨hsq, hsb⟩ := hguard.numbered_step hstep.1 hh
          exact ⟨hsb, .inr (.inl ⟨_, hh, had, rfl, hsq⟩)⟩
  · intro waiter hm
    rcases hstep.1.moves with ⟨_, _, _, _, _, _, hsa, _⟩ | ⟨_, hmv, _⟩
    · rw [hsa] at hm
      exact haw (.registered hm rfl) (hguard.waiters waiter hm)
    · rcases hmv.waiters hm with hm | ⟨recovery, hm, heq, hth⟩
      · exact haw (.registered hm rfl) (hguard.waiters waiter hm)
      · rw [hth]
        exact haw (.starting hm heq) hguard.awaits
  · intro call through hm
    rcases hstep.1.waits hm with hm | ⟨⟨_, hsg⟩, _⟩ | ⟨hsg, retry, hen⟩
    · exact haw (.waiting hm) (hguard.watching call through hm)
    · cases hsg
    · cases hsg
      exact haw (.waiting hen) hguard.awaits
  · intro call guarded hm
    rcases hstep.1.outbox hguard.runs hguard.closing hm with
      hm | han
    · exact (hguard.answers call guarded hm).snoc (hguard.called hstep.1 (.noticed hm rfl))
    · cases han with
      | @settled waiter hwt hqu =>
        have hpn : system.Pending waiter.call := by
          rcases hwt with hm | ⟨recovery, hm, heq, _⟩
          · exact .registered hm rfl
          · exact .starting hm heq
        have hse : Settles trace waiter.call := by
          rcases hwt with hm | ⟨_, _, _, hth⟩
          · exact (hguard.waiters waiter hm).settles rfl hqu
          · rw [hth] at hqu
            exact hguard.awaits.settles rfl hqu
        exact hse.snoc (hguard.called hstep.1 hpn)

lemma guarded_default : Guarded [] System.default where
  runs := by
    intro entry hwk
    cases hwk
  counts := by decide
  closing := fun hcl => absurd rfl hcl
  fresh := by
    intro call hpn
    cases hpn with
    | waiting hm | gated hm _ | starting hm _ | registered hm _ | noticed hm _ =>
      cases hm
  numbered := by
    intro entry hh
    cases hh
  acknowledged := by
    intro write hac
    rcases hac with hac | hac <;> cases hac
  waiters := by
    intro waiter hm
    cases hm
  watching := by
    intro call through hm
    cases hm
  answers := by
    intro call guarded hm
    cases hm

lemma Guarded.run (hrun : Run (StepClears limits) System.default trace system) :
    Guarded trace system := by
  induction hrun with
  | refl => exact guarded_default
  | snoc _ h ih => exact ih.step h

lemma Run.unguarded (hrun : Run (StepClears limits) first trace last) :
    Run (Step limits) first trace last := by
  induction hrun with
  | refl => exact .refl _
  | snoc _ h ih => exact .snoc ih h.1

lemma Guarded.answered (hguard : Guarded trace system)
    (hstep : Step limits system (some (.answered call (.ok ()))) next) : Settles trace call := by
  generalize hl : some (Event.answered call (.ok ())) = label at hstep
  cases hstep with
  | @deliver before after notice hot =>
    cases notice with
    | admission => cases hl
    | ready called guarded result =>
      cases hl
      apply hguard.answers call guarded
      rw [hot]
      exact mem_append_right _ mem_cons_self
  | @waitReturn before after called through result hwa hch =>
    cases hl
    have hm : (call, .watching through) ∈ system.waits := by
      rw [hwa]
      exact mem_append_right _ mem_cons_self
    have haw := hguard.watching call through hm
    cases hin : call.inode with
    | none =>
      intro write hfl
      rw [hin] at hfl
      cases hfl
    | some inode =>
      rw [hin] at hch
      exact haw.settles hin (quiet_of_waitCheck hguard.runs hch)
  | _ => cases hl

end Steps

/-! ## Barriers that report success -/

/-- In every run in which a close empties the queue only of writes whose files
have an error, a barrier that reports success has had every write of its file
executed that was acknowledged before it was called, but for those dropped with
their handles. -/
theorem barrier_executes {limits : Limits} {trace earlier middle later : Trace}
    {system : System} {call : Call} {write : Write}
    (hrun : Run (StepClears limits) System.default trace system)
    (htrace : trace = earlier ++ some (.called call) :: middle ++
      some (.answered call (.ok ())) :: later)
    (hino : call.inode = some write.inode) (hacked : some (.admission write (.ok ())) ∈ earlier) :
    Settled (earlier ++ some (.called call) :: middle) write := by
  subst htrace
  obtain ⟨before, after, hpre, hanswer, _⟩ := hrun.of_middle
  exact (Guarded.run hpre).answered hanswer.1 write hino ⟨earlier, middle, rfl, hacked⟩

/-! ## A retry that races with a close -/

def smallLimits : Limits := ⟨8, 9, by decide, by decide, by decide⟩

def firstWrite : Write := ⟨0, 1, 1, 4⟩

def firstWait : Call := ⟨0, some 1⟩

def firstTrace : Trace :=
  [some (.submitted firstWrite), some (.admission firstWrite (.ok ())), some (.started firstWrite)]

/-- The queue holds the first write. -/
def heldState : State := { State.default with
  entries := [⟨1, firstWrite, false⟩]
  bytes := 4
  admittedBytes := 4
  peakBytes := 4
  peakEntries := 1
  nextSequence := 1 }

def acknowledgedSystem : System :=
  { System.default with state := heldState, nextWrite := 1 }

/-- The first write has been acknowledged and is running. -/
def runningSystem : System := { acknowledgedSystem with
  state := { heldState with entries := [], active := some (1, 1) }
  worker := .running ⟨1, firstWrite, false⟩ }

lemma first_write_runs : Run (StepClears smallLimits) System.default firstTrace runningSystem := by
  have hin : Run (StepClears smallLimits) System.default [] _ := .refl _
  have hsb := hin.snoc ⟨@Step.submit _ _ firstWrite (.ok ()) _ _ rfl rfl, trivial⟩
  have hdl := hsb.snoc ⟨@Step.deliver _ _ [] [] (.admission firstWrite (.ok ())) rfl, trivial⟩
  exact hdl.snoc ⟨@Step.start _ _ ⟨1, firstWrite, false⟩ _ _ rfl rfl rfl rfl, trivial⟩

/-- The first write succeeds and a wait for its file reports success. -/
theorem first_wait_executes :
    let trace := firstTrace ++ [some (.finished firstWrite (.ok ()))]
    (∃ system, Run (StepClears smallLimits) System.default
      (trace ++ some (.called firstWait) :: [none] ++
        [some (.answered firstWait (.ok ()))]) system) ∧
    Settled (trace ++ some (.called firstWait) :: [none]) firstWrite := by
  have hfinished := first_write_runs.snoc
    ⟨@Step.finish _ runningSystem ⟨1, firstWrite, false⟩ (.ok ()) rfl, trivial⟩
  have hcall := hfinished.snoc ⟨@Step.waitCall _ _ firstWait true rfl, trivial⟩
  have hwatching := hcall.snoc ⟨@Step.waitBegin _ _ [] [] firstWait true _ _ rfl rfl, trivial⟩
  have hrun := hwatching.snoc ⟨@Step.waitReturn _ _ [] [] firstWait 1 (.ok ()) rfl rfl, trivial⟩
  refine ⟨⟨_, hrun⟩, ?_⟩
  exact @barrier_executes smallLimits _ _ _ [] _ firstWait firstWrite hrun rfl
    rfl (by simp [firstTrace])

/-- The first write fails and stays in the queue.  A close finds the queue
drained, a wait clears the error of the file to retry the write, the close empties
the queue, and the wait reports success although the write was never executed and
no handle was released. -/
theorem retry_races_close :
    let earlier := firstTrace ++ [some (.finished firstWrite (.error eio)), none, none, none]
    let middle := [none, some (.emptied (.ok ()))]
    (∃ system, Run (Step smallLimits) System.default
      (earlier ++ some (.called firstWait) :: middle ++
        [some (.answered firstWait (.ok ()))]) system) ∧ firstWait.inode = some firstWrite.inode ∧
    some (.admission firstWrite (.ok ())) ∈ earlier ∧
    ¬ Settled (earlier ++ some (.called firstWait) :: middle) firstWrite := by
  have hfailed := (Run.unguarded first_write_runs).snoc
    (@Step.finish _ runningSystem ⟨1, firstWrite, false⟩ (.error eio) rfl)
  have hshut := hfailed.snoc (@Step.closeCall _ _ rfl)
  have hwaiting := hshut.snoc (@Step.closeWait _ _ [] [] rfl)
  have hdrained := hwaiting.snoc (@Step.closeDrained _ _ [] [] 1 (.ok ()) rfl (by decide))
  have hcall := hdrained.snoc (@Step.waitCall _ _ firstWait true rfl)
  have hretried := hcall.snoc (@Step.waitBegin _ _ [] [] firstWait true _ _ rfl rfl)
  have hemptied := hretried.snoc
    (@Step.closeFinish _ _ [] [] (.ok ()) (.ok ()) _ _ rfl (.inr ⟨by decide, rfl⟩) rfl)
  have hback := hemptied.snoc (@Step.waitReturn _ _ [] [] firstWait 1 (.ok ()) rfl (by decide))
  refine ⟨⟨_, hback⟩, rfl, by simp [firstTrace], ?_⟩
  rintro (hfinished | ⟨before, after, inode, handle, last, htrace, _⟩)
  · simp [firstTrace] at hfinished
  · have hmem : some (Event.released inode handle last) ∈
        before ++ some (.released inode handle last) :: after := by simp
    rw [← htrace] at hmem
    simp [firstTrace] at hmem

end AgentDx.Fuse
