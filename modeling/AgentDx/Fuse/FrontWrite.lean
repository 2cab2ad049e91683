import AgentDx.Lib.Run
import AgentDx.Lib.Word

/-!
# The front write queue

Ordinary writes are taken into one bounded queue and executed by one worker.  A
write within the admitted limit is acknowledged at once; a write beyond it keeps
its callback until there is room.  A failed write stays at the front of the
queue and blocks its file until a barrier retries it.  Every operation is a few
critical sections of one lock; callbacks run after the lock is released, so each
of them is a step of its own.
-/

namespace AgentDx.Fuse

open Std Word List

/-- Error numbers of the operating system. -/
abbrev Errno := ℤ

def eio : Errno := 5
def e2big : Errno := 7
def eagain : Errno := 11

/-- How a callback or a call is answered. -/
abbrev Answer := Except Errno Unit

def maxWaitingEntries : ℕ := 4096
def maxControls : ℕ := 4096

/-! ## Limits -/

/-- The admitted limit and the limit with the waiting reserve. -/
structure Limits where
  admittedLimit : ℕ
  limit : ℕ
  positive : 0 < admittedLimit
  covers : admittedLimit ≤ limit
  fits : limit < Word.size

def Limits.withLimits (admittedLimit reserve : ℕ) : Except Errno Limits :=
  if hpositive : 0 < admittedLimit then
    if hfits : admittedLimit + reserve < Word.size then
      .ok ⟨admittedLimit, admittedLimit + reserve, hpositive, Nat.le_add_right _ _, hfits⟩
    else
      .error e2big
  else
    .error e2big

/-- The waiting reserve is an eighth of the admitted limit, 32 MiB at most. -/
def Limits.new (admittedLimit : ℕ) : Except Errno Limits :=
  Limits.withLimits admittedLimit (min (admittedLimit / 8) (32 * 1024 * 1024))

/-! ## The queue -/

/-- One submitted write; its number stands for its job and its callback. -/
structure Write where
  id : ℕ
  inode : ℕ
  handle : ℕ
  bytes : ℕ
deriving DecidableEq

/-- One barrier call: a recovery of a file or a wait for one or all files. -/
structure Call where
  id : ℕ
  inode : Option ℕ
deriving DecidableEq

/-- A held write; `admission` tells whether its callback is still kept. -/
structure Entry where
  sequence : ℕ
  write : Write
  admission : Bool
deriving DecidableEq

/-- A recovery that waits for the writes of its file up to a number. -/
structure Waiter where
  inode : ℕ
  through : ℕ
  ready : ℕ

def Waiter.call (waiter : Waiter) : Call := ⟨waiter.ready, some waiter.inode⟩

structure State where
  entries : List Entry
  bytes : ℕ
  admittedBytes : ℕ
  peakBytes : ℕ
  peakPendingBytes : ℕ
  peakEntries : ℕ
  nextSequence : ℕ
  waiters : List Waiter
  active : Option (ℕ × ℕ)
  errors : ExtTreeMap ℕ Errno
  closing : Bool
  closed : Bool

def State.default : State where
  entries := []
  bytes := 0
  admittedBytes := 0
  peakBytes := 0
  peakPendingBytes := 0
  peakEntries := 0
  nextSequence := 0
  waiters := []
  active := none
  errors := ∅
  closing := false
  closed := false

/-- A callback that is about to be called; that of a recovery gets the guard of
its file unless the recovery was refused. -/
inductive Notice where
  | admission (write : Write) (result : Answer)
  | ready (call : Call) (guarded : Option ℕ) (result : Answer)

/-! ## Critical sections -/

section Sections

variable (limits : Limits) (state : State)

/-- The file has a running write up to this number. -/
def State.activeUpTo (inode through : ℕ) : Bool :=
  state.active.any fun (file, sequence) =>
    decide (file = inode) && decide (sequence ≤ through)

def State.pendingUpTo (inode through : ℕ) : Bool :=
  state.entries.any fun entry =>
    decide (entry.write.inode = inode) && decide (entry.sequence ≤ through)

def State.isReady (waiter : Waiter) : Bool :=
  state.errors.contains waiter.inode || (!state.activeUpTo waiter.inode waiter.through &&
      !state.pendingUpTo waiter.inode waiter.through)

/-- The error of a file, or success. -/
def State.answer (inode : ℕ) : Answer :=
  match state.errors[inode]? with
  | some error => .error error
  | none => .ok ()

def Waiter.notice (waiter : Waiter) : Notice :=
  .ready waiter.call (some waiter.inode) (state.answer waiter.inode)

/-- Answers the recoveries whose files have failed or settled. -/
def State.readyWaiters : State × List Notice :=
  ({ state with waiters := state.waiters.filter (!state.isReady ·) },
    (state.waiters.filter state.isReady).map (Waiter.notice state))

/-- The first admitted write of a file without an error. -/
def State.runnable : Option ℕ :=
  state.entries.findIdx? fun entry =>
    !entry.admission && !state.errors.contains entry.write.inode

/-- Why a write that waits for admission is turned away. -/
def State.refusal (inode : ℕ) : Option Errno :=
  if state.closing then
    some eio
  else
    match state.errors[inode]? with
    | some error => some error
    | none => if state.errors.isEmpty then none else some eagain

/-- What the admission loop leaves of the entries it has passed. -/
structure Scan where
  entries : List Entry
  bytes : ℕ
  admittedBytes : ℕ
  callbacks : List Notice

def Scan.keep (entry : Entry) (scan : Scan) : Scan :=
  { scan with entries := entry :: scan.entries }

def Scan.call (notice : Notice) (scan : Scan) : Scan :=
  { scan with callbacks := notice :: scan.callbacks }

/-- The loop of the admissions.  A write that does not fit blocks the later
writes of its file. -/
def admissionsFrom (refusal : ℕ → Option Errno) : List Entry → List ℕ → ℕ → ℕ → Scan
  | [], _, bytes, admittedBytes => ⟨[], bytes, admittedBytes, []⟩
  | entry :: rest, blocked, bytes, admittedBytes =>
    if entry.admission = false then
      (admissionsFrom refusal rest blocked bytes admittedBytes).keep entry
    else
      match refusal entry.write.inode with
      | some error =>
        (admissionsFrom refusal rest blocked
          (wrappingSub bytes entry.write.bytes) admittedBytes).call
            (.admission entry.write (.error error))
      | none =>
        if entry.write.inode ∉ blocked ∧
            entry.write.bytes ≤ limits.admittedLimit - admittedBytes then
          ((admissionsFrom refusal rest blocked bytes
            (admittedBytes + entry.write.bytes)).keep
              { entry with admission := false }).call (.admission entry.write (.ok ()))
        else
          (admissionsFrom refusal rest (entry.write.inode :: blocked) bytes
            admittedBytes).keep entry

def State.admissions : State × List Notice :=
  let scan := admissionsFrom limits state.refusal state.entries [] state.bytes state.admittedBytes
  ({ state with
    entries := scan.entries
    bytes := scan.bytes
    admittedBytes := scan.admittedBytes }, scan.callbacks)

/-- The first section of a round of the worker. -/
def State.round : State × List Notice :=
  let admitted := state.admissions limits
  let settled := admitted.1.readyWaiters
  (settled.1, admitted.2 ++ settled.2)

/-- Takes the next runnable write out of the queue. -/
def State.take : Option (Entry × State) := do
  let index ← state.runnable
  let entry ← state.entries[index]?
  return (entry, { state with
    entries := state.entries.eraseIdx index
    active := some (entry.write.inode, entry.sequence) })

/-- The section after a job has run. -/
def State.finish (entry : Entry) : Answer → State
  | .ok () => { state with
      active := none
      bytes := wrappingSub state.bytes entry.write.bytes
      admittedBytes := wrappingSub state.admittedBytes entry.write.bytes }
  | .error error => { state with
      active := none
      errors := state.errors.insert entry.write.inode error
      entries := entry :: state.entries }

def State.recordEntry (write : Write) (admission : Bool) : State :=
  let sequence := saturatingAdd state.nextSequence 1
  let bytes := state.bytes + write.bytes
  let admittedBytes :=
    if admission then state.admittedBytes else state.admittedBytes + write.bytes
  let entries := state.entries ++ [⟨sequence, write, admission⟩]
  { state with
    nextSequence := sequence
    bytes := bytes
    admittedBytes := admittedBytes
    peakBytes := max state.peakBytes bytes
    peakPendingBytes := max state.peakPendingBytes (wrappingSub bytes admittedBytes)
    entries := entries
    peakEntries := max state.peakEntries entries.length }

/-- The write has to wait for admission. -/
def State.mustWait (write : Write) : Bool :=
  decide (limits.admittedLimit - state.admittedBytes < write.bytes) ||
    state.entries.any fun entry =>
      decide (entry.write.inode = write.inode) && entry.admission

/-- Why a write is not taken into the queue; `made` is how making its job
ended. -/
def State.submitError (write : Write) (made : Answer) : Option Errno :=
  if state.closing || state.closed then
    some eio
  else
    match state.errors[write.inode]? with
    | some error => some error
    | none =>
      if limits.admittedLimit < write.bytes then
        some e2big
      else if limits.limit - state.bytes < write.bytes ∨
          maxWaitingEntries ≤ state.entries.length then
        some eagain
      else if state.mustWait limits write && !state.errors.isEmpty then
        some eagain
      else
        match made with
        | .error error => some error
        | .ok () => none

/-- Submits a write: it is turned away, taken and acknowledged, or taken with its
callback kept. -/
def State.submitDeferredWith (write : Write) (made : Answer) : State × List Notice :=
  match state.submitError limits write made with
  | some error => (state, [.admission write (.error error)])
  | none =>
    if state.mustWait limits write then
      (state.recordEntry write true, [])
    else
      (state.recordEntry write false, [.admission write (.ok ())])

/-- The first section of a wait: the numbers to wait for, and the retry. -/
def State.waitBegin (inode : Option ℕ) (retry : Bool) : Except Errno (State × ℕ) :=
  if state.closed then
    .error eio
  else
    .ok (match inode with
      | some inode =>
        if retry then { state with errors := state.errors.erase inode }
        else state
      | none => state, state.nextSequence)

/-- One look of a wait: its answer, or nothing as long as it has to wait. -/
def State.waitCheck (inode : Option ℕ) (through : ℕ) : Option Answer :=
  match inode.bind fun inode => state.errors[inode]? with
  | some error => some (.error error)
  | none =>
    let active := state.active.any fun (file, sequence) =>
      decide (sequence ≤ through) && inode.all (fun inode => inode = file)
    let pending := state.entries.any fun entry =>
      decide (entry.sequence ≤ through) && inode.all (fun inode => inode = entry.write.inode) &&
        !state.errors.contains entry.write.inode
    if active || pending then none else some (.ok ())

/-- The release of a handle takes its writes, and with the last handle of a file
all writes of the file. -/
def releases (inode handle : ℕ) (last : Bool) (write : Write) : Bool :=
  decide (write.handle = handle) || (last && decide (write.inode = inode))

/-- The loop of a release. -/
def releaseFrom (inode handle : ℕ) (last : Bool) : List Entry → ℕ → ℕ → Scan
  | [], bytes, admittedBytes => ⟨[], bytes, admittedBytes, []⟩
  | entry :: rest, bytes, admittedBytes =>
    if releases inode handle last entry.write then
      if entry.admission then
        (releaseFrom inode handle last rest
          (wrappingSub bytes entry.write.bytes) admittedBytes).call
            (.admission entry.write (.error eio))
      else
        releaseFrom inode handle last rest
          (wrappingSub bytes entry.write.bytes)
          (wrappingSub admittedBytes entry.write.bytes)
    else
      (releaseFrom inode handle last rest bytes admittedBytes).keep entry

def State.releaseHandle (inode handle : ℕ) (last : Bool) : State × List Notice :=
  let scan := releaseFrom inode handle last state.entries state.bytes state.admittedBytes
  ({ state with
    entries := scan.entries
    bytes := scan.bytes
    admittedBytes := scan.admittedBytes
    errors := if last then state.errors.erase inode else state.errors }, scan.callbacks)

/-- The section in which a recovery clears the error of its file and registers. -/
def State.recoverStart (inode ready : ℕ) : State × List Notice :=
  if state.closed then
    (state, [.ready ⟨ready, some inode⟩ (some inode) (.error eio)])
  else
    State.readyWaiters { state with
      errors := state.errors.erase inode
      waiters := state.waiters ++ [⟨inode, state.nextSequence, ready⟩] }

/-- The last section of a close: it answers whom it can and empties the queue. -/
def State.closeFinish : State × List Notice :=
  let rounded := state.round limits
  ({ rounded.1 with
    closed := true
    entries := []
    bytes := 0
    admittedBytes := 0 }, rounded.2)

/-- What a close may return: one of the errors, if there is one. -/
def State.CloseResult (drained result : Answer) : Prop :=
  (∃ (inode : ℕ) (error : Errno), state.errors[inode]? = some error ∧ result = .error error) ∨
    state.errors.isEmpty = true ∧ result = drained

end Sections

/-! ## What the sections do -/

section Specs

variable {limits : Limits} {state next : State} {notices : List Notice}

lemma mem_readyWaiters : notice ∈ state.readyWaiters.2 ↔ ∃ waiter ∈ state.waiters,
      state.isReady waiter = true ∧ notice = waiter.notice state := by
  simp only [State.readyWaiters, mem_map, mem_filter]
  constructor
  · rintro ⟨waiter, ⟨hm, hrd⟩, rfl⟩
    exact ⟨waiter, hm, hrd, rfl⟩
  · rintro ⟨waiter, hm, hrd, rfl⟩
    exact ⟨waiter, ⟨hm, hrd⟩, rfl⟩

section Admissions

variable {refusal : ℕ → Option Errno} {entries : List Entry} {blocked : List ℕ}
variable {bytes admittedBytes : ℕ}

lemma admissionsFrom_kept (hmem : entry ∈ entries) (hadm : entry.admission = false) :
    entry ∈ (admissionsFrom limits refusal entries blocked bytes admittedBytes).entries := by
  induction entries generalizing blocked bytes admittedBytes with
  | nil => cases hmem
  | cons head rest ih =>
    rcases mem_cons.mp hmem with rfl | hmem
    · rw [admissionsFrom, if_pos hadm]
      exact mem_cons_self
    · unfold admissionsFrom
      split
      · exact mem_cons_of_mem _ (ih hmem)
      · split
        · exact ih hmem
        · split
          · exact mem_cons_of_mem _ (ih hmem)
          · exact mem_cons_of_mem _ (ih hmem)

lemma admissionsFrom_origin
    (hmem : entry ∈ (admissionsFrom limits refusal entries blocked bytes admittedBytes).entries) :
    ∃ held ∈ entries, held.write = entry.write ∧ held.sequence = entry.sequence := by
  induction entries generalizing blocked bytes admittedBytes with
  | nil => cases hmem
  | cons head rest ih =>
    have hr : ∀ {blocked bytes admittedBytes},
        entry ∈ (admissionsFrom limits refusal rest blocked bytes admittedBytes).entries →
        ∃ held ∈ head :: rest, held.write = entry.write ∧ held.sequence = entry.sequence := by
      intro blocked bytes admittedBytes hsc
      obtain ⟨held, hh, heq⟩ := ih hsc
      exact ⟨held, mem_cons_of_mem _ hh, heq⟩
    unfold admissionsFrom at hmem
    split at hmem
    · rcases mem_cons.mp hmem with rfl | hmem
      · exact ⟨_, mem_cons_self, rfl, rfl⟩
      · exact hr hmem
    · split at hmem
      · exact hr hmem
      · split at hmem
        · rcases mem_cons.mp hmem with rfl | hmem
          · exact ⟨head, mem_cons_self, rfl, rfl⟩
          · exact hr hmem
        · rcases mem_cons.mp hmem with rfl | hmem
          · exact ⟨_, mem_cons_self, rfl, rfl⟩
          · exact hr hmem

lemma admissionsFrom_callbacks
    (hmem : notice ∈
      (admissionsFrom limits refusal entries blocked bytes admittedBytes).callbacks) :
    (∃ entry ∈ entries, ∃ error, notice = .admission entry.write (.error error)) ∨
      ∃ entry ∈ (admissionsFrom limits refusal entries blocked bytes
        admittedBytes).entries, entry.admission = false ∧
        notice = .admission entry.write (.ok ()) := by
  induction entries generalizing blocked bytes admittedBytes with
  | nil => cases hmem
  | cons head rest ih =>
    unfold admissionsFrom at hmem ⊢
    split at hmem
    next had =>
      simp only [had, if_true]
      rcases ih hmem with ⟨entry, he, hnt⟩ | ⟨entry, he, hnt⟩
      · exact .inl ⟨entry, mem_cons_of_mem _ he, hnt⟩
      · exact .inr ⟨entry, mem_cons_of_mem _ he, hnt⟩
    next hwt =>
      simp only [hwt]
      split at hmem
      next error her =>
        rcases mem_cons.mp hmem with rfl | hmem
        · exact .inl ⟨head, mem_cons_self, error, rfl⟩
        · rcases ih hmem with ⟨entry, he, hnt⟩ | had
          · exact .inl ⟨entry, mem_cons_of_mem _ he, hnt⟩
          · exact .inr had
      · split at hmem
        next hft =>
          rw [if_pos hft]
          rcases mem_cons.mp hmem with rfl | hmem
          · exact .inr ⟨_, mem_cons_self, rfl, rfl⟩
          · rcases ih hmem with ⟨entry, he, hnt⟩ | ⟨entry, he, hnt⟩
            · exact .inl ⟨entry, mem_cons_of_mem _ he, hnt⟩
            · exact .inr ⟨entry, mem_cons_of_mem _ he, hnt⟩
        next hft =>
          rw [if_neg hft]
          rcases ih hmem with ⟨entry, he, hnt⟩ | ⟨entry, he, hnt⟩
          · exact .inl ⟨entry, mem_cons_of_mem _ he, hnt⟩
          · exact .inr ⟨entry, mem_cons_of_mem _ he, hnt⟩

end Admissions

/-- What a round of the worker leaves alone. -/
structure Rounded (state next : State) (notices : List Notice) : Prop where
  nextSequence : next.nextSequence = state.nextSequence
  active : next.active = state.active
  errors : next.errors = state.errors
  closing : next.closing = state.closing
  closed : next.closed = state.closed
  waiters : ∀ waiter ∈ next.waiters, waiter ∈ state.waiters
  kept : ∀ entry ∈ state.entries, entry.admission = false → entry ∈ next.entries
  origin : ∀ entry ∈ next.entries, ∃ held ∈ state.entries,
    held.write = entry.write ∧ held.sequence = entry.sequence
  callbacks : ∀ notice ∈ notices,
    (∃ entry ∈ state.entries, ∃ error, notice = .admission entry.write (.error error)) ∨
    (∃ entry ∈ next.entries, entry.admission = false ∧ notice = .admission entry.write (.ok ())) ∨
    ∃ waiter ∈ state.waiters, next.isReady waiter = true ∧ notice = waiter.notice next

lemma State.rounded (hround : state.round limits = (next, notices)) :
    Rounded state next notices := by
  obtain ⟨rfl, rfl⟩ := Prod.mk.inj hround
  refine ⟨rfl, rfl, rfl, rfl, rfl, ?_, ?_, ?_, ?_⟩
  · intro waiter hwt
    exact (mem_filter.mp hwt).1
  · intro entry he had
    exact admissionsFrom_kept he had
  · intro entry he
    exact admissionsFrom_origin he
  · intro notice hnt
    rcases mem_append.mp hnt with hnt | hnt
    · rcases admissionsFrom_callbacks hnt with hrf | had
      · exact .inl hrf
      · exact .inr (.inl had)
    · obtain ⟨waiter, hwt, hry, rfl⟩ := mem_readyWaiters.mp hnt
      exact .inr (.inr ⟨waiter, hwt, hry, rfl⟩)

/-- A write is taken when it is the first admitted one of a file without an
error. -/
lemma State.take_eq_some {entry} (htake : state.take = some (entry, next)) :
    ∃ before after, state.entries = before ++ entry :: after ∧ next = { state with
        entries := before ++ after
        active := some (entry.write.inode, entry.sequence) } ∧ entry.admission = false ∧
      state.errors.contains entry.write.inode = false ∧
      ∀ earlier ∈ before, earlier.admission = false →
        state.errors.contains earlier.write.inode = true := by
  simp only [State.take, Option.bind_eq_bind, Option.bind_eq_some_iff] at htake
  obtain ⟨index, hix, found, hfn, hnx⟩ := htake
  cases hnx
  rw [State.runnable, findIdx?_eq_some_iff_getElem] at hix
  obtain ⟨hlt, hrn, her⟩ := hix
  obtain ⟨hlt', heq⟩ := List.getElem?_eq_some_iff.mp hfn
  rw [heq] at hrn
  simp only [Bool.and_eq_true, Bool.not_eq_true'] at hrn
  refine ⟨state.entries.take index, state.entries.drop (index + 1), ?_, ?_, hrn.1, hrn.2, ?_⟩
  · rw [← heq, getElem_cons_drop, take_append_drop]
  · rw [eraseIdx_eq_take_drop_succ]
  · intro earlier hm had
    obtain ⟨position, hps, rfl⟩ := mem_take_iff_getElem.mp hm
    have hnt := her position (by omega)
    simpa [had] using hnt

/-- A write is turned away, taken with its callback kept, or taken within the
admitted limit. -/
inductive Submitted (limits : Limits) (state : State) (write : Write) :
    State → List Notice → Prop where
  | refused (error) : Submitted limits state write state [.admission write (.error error)]
  | waiting (hopen : state.closed = false)
      (hsmall : write.bytes ≤ limits.admittedLimit)
      (hroom : write.bytes ≤ limits.limit - state.bytes)
      (herrors : state.errors.isEmpty = true) :
      Submitted limits state write (state.recordEntry write true) []
  | admitted (hopen : state.closed = false)
      (hsmall : write.bytes ≤ limits.admittedLimit)
      (hroom : write.bytes ≤ limits.limit - state.bytes)
      (hfits : write.bytes ≤ limits.admittedLimit - state.admittedBytes)
      (hfirst : ∀ entry ∈ state.entries, entry.write.inode = write.inode → entry.admission = false)
      (herror : state.errors.contains write.inode = false) :
      Submitted limits state write (state.recordEntry write false) [.admission write (.ok ())]

lemma State.submitted {write}
    (hsubmit : state.submitDeferredWith limits write made = (next, notices)) :
    Submitted limits state write next notices := by
  unfold State.submitDeferredWith at hsubmit
  split at hsubmit
  · cases hsubmit
    exact .refused _
  next hnn =>
    unfold State.submitError at hnn
    split at hnn
    · cases hnn
    next hop =>
      split at hnn
      · cases hnn
      next her =>
        split at hnn
        · cases hnn
        next hsm =>
          split at hnn
          · cases hnn
          next hrm =>
            split at hnn
            · cases hnn
            next hwt =>
              have hop' : state.closed = false := by simp_all
              have hcn : state.errors.contains write.inode = false := by
                rw [← ExtTreeMap.isSome_getElem?_eq_contains, her]
                rfl
              split at hsubmit
              next hms =>
                cases hsubmit
                refine .waiting hop' (by omega) (by omega) ?_
                simpa [hms] using hwt
              next hms =>
                cases hsubmit
                simp only [State.mustWait, Bool.or_eq_true, decide_eq_true_eq,
                  any_eq_true, Bool.and_eq_true, not_or, Nat.not_lt, not_exists, not_and] at hms
                refine .admitted hop' (by omega) (by omega) hms.1 ?_ hcn
                intro entry he hin
                exact Bool.eq_false_of_not_eq_true (hms.2 entry he hin)

section Release

variable {inode handle : ℕ} {last : Bool} {entries : List Entry}
variable {bytes admittedBytes : ℕ}

lemma releaseFrom_entries : (releaseFrom inode handle last entries bytes admittedBytes).entries =
      entries.filter fun entry => !releases inode handle last entry.write := by
  induction entries generalizing bytes admittedBytes with
  | nil => rfl
  | cons head rest ih =>
    rw [filter_cons]
    unfold releaseFrom
    cases h : releases inode handle last head.write with
    | false => simp [Scan.keep, ih]
    | true => cases head.admission <;> simp [Scan.call, ih]

lemma releaseFrom_callbacks :
    (releaseFrom inode handle last entries bytes admittedBytes).callbacks =
      (entries.filter fun entry => releases inode handle last entry.write &&
        entry.admission).map fun entry =>
          .admission entry.write (.error eio) := by
  induction entries generalizing bytes admittedBytes with
  | nil => rfl
  | cons head rest ih =>
    rw [filter_cons]
    unfold releaseFrom
    cases h : releases inode handle last head.write with
    | false => simp [Scan.keep, ih]
    | true => cases head.admission <;> simp [Scan.call, ih]

lemma State.releaseHandle_entries (state : State) (inode handle last) :
    (state.releaseHandle inode handle last).1.entries =
      state.entries.filter fun entry =>
        !releases inode handle last entry.write :=
  releaseFrom_entries

lemma State.releaseHandle_callbacks (state : State) (inode handle last) :
    (state.releaseHandle inode handle last).2 =
      (state.entries.filter fun entry => releases inode handle last entry.write &&
        entry.admission).map fun entry => .admission entry.write (.error eio) :=
  releaseFrom_callbacks

end Release

end Specs

/-! ## File gates -/

/-- A recovery that waits for the gate of its file. -/
structure Recovery where
  inode : ℕ
  ready : ℕ

structure GateState where
  files : List ℕ
  exclusive : Bool
  namespaceWaiters : ℕ
  recoveries : List Recovery

def GateState.default : GateState := ⟨[], false, 0, []⟩

/-- The loop that lets recoveries of free files through. -/
def readyFrom : List ℕ → List Recovery → List ℕ × List Recovery × List Recovery
  | files, [] => (files, [], [])
  | files, recovery :: rest =>
    if recovery.inode ∈ files then
      let (files, waiting, ready) := readyFrom files rest
      (files, recovery :: waiting, ready)
    else
      let (files, waiting, ready) := readyFrom (recovery.inode :: files) rest
      (files, waiting, recovery :: ready)

def GateState.ready (gates : GateState) : GateState × List Recovery :=
  let (files, waiting, ready) := readyFrom gates.files gates.recoveries
  ({ gates with files := files, recoveries := waiting }, ready)

def GateState.recover (gates : GateState) (recovery : Recovery) : GateState × List Recovery :=
  GateState.ready { gates with recoveries := gates.recoveries ++ [recovery] }

/-- A callback on these files has to wait. -/
def GateState.blocksFiles (gates : GateState) (files : List ℕ) (recovery : Bool) : Bool :=
  files.any (fun file => decide (file ∈ gates.files) ||
      gates.recoveries.any fun waiting => decide (waiting.inode = file)) ||
    (!recovery && (gates.exclusive || decide (gates.namespaceWaiters ≠ 0)))

def GateState.blocksNamespace (gates : GateState) : Bool := gates.exclusive || !gates.files.isEmpty

/-- What a callback holds while it runs: its files, or the whole namespace. -/
structure Guard where
  files : Option (List ℕ)
  control : Bool

def GateState.release (gates : GateState) (guarded : Guard) : GateState :=
  match guarded.files with
  | some files => { gates with files := gates.files.filter (· ∉ files) }
  | none => { gates with exclusive := false }

/-- The end of a guard lets the recoveries through that waited for it. -/
def GateState.drop (gates : GateState) (guarded : Guard) : GateState × List Recovery :=
  (gates.release guarded).ready

/-! ## The system -/

inductive Worker where
  | idle
  | running (entry : Entry)
  | stopped

/-- The write the worker holds. -/
def Worker.entry? : Worker → Option Entry
  | .running entry => some entry
  | _ => none

/-- Where a wait is: before its first section, or looking again. -/
inductive WaitStage where
  | entering (retry : Bool)
  | watching (through : ℕ)

/-- Where a close is: it has announced itself, waits for the queue to drain, or
is about to empty it. -/
inductive CloseStage where
  | begun
  | draining (through : ℕ)
  | drained (result : Answer)

structure System where
  state : State
  gates : GateState
  controls : ℕ
  worker : Worker
  starting : List Recovery
  waits : List (Call × WaitStage)
  closes : List CloseStage
  outbox : List Notice
  guards : List Guard
  nextWrite : ℕ
  nextCall : ℕ

def System.default : System where
  state := .default
  gates := .default
  controls := 0
  worker := .idle
  starting := []
  waits := []
  closes := []
  outbox := []
  guards := []
  nextWrite := 0
  nextCall := 0

/-- What is seen from outside: calls, callbacks and jobs. -/
inductive Event where
  | submitted (write : Write)
  | admission (write : Write) (result : Answer)
  | started (write : Write)
  | finished (write : Write) (result : Answer)
  | called (call : Call)
  | answered (call : Call) (result : Answer)
  | released (inode handle : ℕ) (last : Bool)
  | emptied (result : Answer)

/-- The callback of a notice is called. -/
def Notice.event : Notice → Event
  | .admission write result => .admission write result
  | .ready call _ result => .answered call result

/-- The guard a called callback holds. -/
def Notice.guards : Notice → List Guard
  | .ready _ (some inode) _ => [⟨some [inode], true⟩]
  | _ => []

/-- One step of some thread. -/
inductive Step (limits : Limits) : System → Option Event → System → Prop where
  | submit {system : System} {write : Write} {made state notices}
      (hwrite : write.id = system.nextWrite)
      (hsubmit : system.state.submitDeferredWith limits write made = (state, notices)) :
      Step limits system (some (.submitted write)) { system with
        state := state
        outbox := system.outbox ++ notices
        nextWrite := system.nextWrite + 1 }
  | deliver {system : System} {before after notice}
      (houtbox : system.outbox = before ++ notice :: after) :
      Step limits system (some notice.event) { system with
        outbox := before ++ after
        guards := system.guards ++ notice.guards }
  | round {system : System} {state notices} (hworker : system.worker = .idle)
      (hround : system.state.round limits = (state, notices)) (hnotices : notices ≠ []) :
      Step limits system none { system with
        state := state
        outbox := system.outbox ++ notices }
  | start {system : System} {entry rounded state} (hworker : system.worker = .idle)
      (hround : system.state.round limits = (rounded, [])) (hopen : rounded.closed = false)
      (htake : rounded.take = some (entry, state)) :
      Step limits system (some (.started entry.write)) { system with
        state := state
        worker := .running entry }
  | finish {system : System} {entry} (result) (hworker : system.worker = .running entry) :
      Step limits system (some (.finished entry.write result)) { system with
        state := system.state.finish entry result
        worker := .idle }
  | stop {system : System} {state} (hworker : system.worker = .idle)
      (hround : system.state.round limits = (state, [])) (hclosed : state.closed = true) :
      Step limits system none { system with
        state := state
        worker := .stopped }
  | refuse {system : System} {call : Call}
      (hcall : call.id = system.nextCall) (hinode : call.inode.isSome = true)
      (hcontrols : maxControls ≤ system.controls) :
      Step limits system (some (.called call)) { system with
        outbox := system.outbox ++ [.ready call none (.error eagain)]
        nextCall := system.nextCall + 1 }
  | recover {system : System} {inode closing gates ready}
      (hcontrols : system.controls < maxControls ∨ closing = true)
      (hrecover : system.gates.recover ⟨inode, system.nextCall⟩ = (gates, ready)) :
      Step limits system (some (.called ⟨system.nextCall, some inode⟩))
        { system with
          gates := gates
          controls := system.controls + 1
          starting := system.starting ++ ready
          nextCall := system.nextCall + 1 }
  | recoverStart {system : System} {before after recovery state notices}
      (hstarting : system.starting = before ++ recovery :: after)
      (hstart : system.state.recoverStart recovery.inode recovery.ready = (state, notices)) :
      Step limits system none { system with
        state := state
        starting := before ++ after
        outbox := system.outbox ++ notices }
  | waitCall {system : System} {call : Call} {retry} (hcall : call.id = system.nextCall) :
      Step limits system (some (.called call)) { system with
        waits := system.waits ++ [(call, .entering retry)]
        nextCall := system.nextCall + 1 }
  | waitRefused {system : System} {before after call retry error}
      (hwaits : system.waits = before ++ (call, .entering retry) :: after)
      (hbegin : system.state.waitBegin call.inode retry = .error error) :
      Step limits system (some (.answered call (.error error)))
        { system with waits := before ++ after }
  | waitBegin {system : System} {before after call retry state through}
      (hwaits : system.waits = before ++ (call, .entering retry) :: after)
      (hbegin : system.state.waitBegin call.inode retry = .ok (state, through)) :
      Step limits system none { system with
        state := state
        waits := before ++ (call, .watching through) :: after }
  | waitReturn {system : System} {before after call through result}
      (hwaits : system.waits = before ++ (call, .watching through) :: after)
      (hcheck : system.state.waitCheck call.inode through = some result) :
      Step limits system (some (.answered call result))
        { system with waits := before ++ after }
  | release {system : System} {inode handle last state notices}
      (hrelease : system.state.releaseHandle inode handle last = (state, notices)) :
      Step limits system (some (.released inode handle last)) { system with
        state := state
        outbox := system.outbox ++ notices }
  | closeCall {system : System} (hopen : system.state.closed = false) :
      Step limits system none { system with
        state := { system.state with closing := true }
        closes := system.closes ++ [.begun] }
  | closeWait {system : System} {before after}
    (hcloses : system.closes = before ++ .begun :: after) :
      Step limits system none { system with
        closes := before ++ (match system.state.waitBegin none false with
          | .ok (_, through) => .draining through
          | .error error => .drained (.error error)) :: after }
  | closeDrained {system : System} {before after through result}
      (hcloses : system.closes = before ++ .draining through :: after)
      (hcheck : system.state.waitCheck none through = some result) : Step limits system none
        { system with closes := before ++ .drained result :: after }
  | closeFinish {system : System} {before after drained result state notices}
      (hcloses : system.closes = before ++ .drained drained :: after)
      (hresult : system.state.CloseResult drained result)
      (hfinish : system.state.closeFinish limits = (state, notices)) :
      Step limits system (some (.emptied result)) { system with
        state := state
        closes := before ++ after
        outbox := system.outbox ++ notices }
  | enterFiles {system : System} (files recovery)
      (hfree : system.gates.blocksFiles files recovery = false) :
      Step limits system none { system with
        gates := { system.gates with files := system.gates.files ++ files }
        guards := system.guards ++ [⟨some files, false⟩] }
  | enterWait {system} : Step limits system none { system with
        gates := { system.gates with
          namespaceWaiters := system.gates.namespaceWaiters + 1 } }
  | enterNamespace {system : System}
      (hwaiting : 0 < system.gates.namespaceWaiters)
      (hfree : system.gates.blocksNamespace = false) : Step limits system none { system with
        gates := { system.gates with
          namespaceWaiters := system.gates.namespaceWaiters - 1
          exclusive := true }
        guards := system.guards ++ [⟨none, false⟩] }
  | drop {system : System} {before after guarded gates ready}
      (hguards : system.guards = before ++ guarded :: after)
      (hdrop : system.gates.drop guarded = (gates, ready)) : Step limits system none { system with
        gates := gates
        controls := if guarded.control then system.controls - 1
          else system.controls
        starting := system.starting ++ ready
        guards := before ++ after }

/-! ## What a step does to the queue -/

/-- Events that neither submit, run nor remove a write. -/
def Event.passive : Event → Bool
  | .called _ | .answered _ _ => true
  | _ => false

def Recovery.call (recovery : Recovery) : Call := ⟨recovery.ready, some recovery.inode⟩

/-- What one step does to the queue and its worker, and the callbacks it leaves
to be called. -/
inductive Moves (limits : Limits) (system : System) :
    Option Event → State → Worker → List Notice → Prop where
  | rest {label : Option Event} (hlabel : label.all Event.passive = true) :
      Moves limits system label system.state system.worker []
  | submit {write : Write} {state notices} (hwrite : write.id = system.nextWrite)
      (hsubmitted : Submitted limits system.state write state notices) :
      Moves limits system (some (.submitted write)) state system.worker notices
  | round {state} {worker : Worker} {notices} (hidle : system.worker = .idle)
      (hworker : worker.entry? = none) (hround : system.state.round limits = (state, notices)) :
      Moves limits system none state worker notices
  | start {entry rounded before after} (hidle : system.worker = .idle)
      (hround : system.state.round limits = (rounded, [])) (hopen : rounded.closed = false)
      (hentries : rounded.entries = before ++ entry :: after) (hadmitted : entry.admission = false)
      (herror : rounded.errors.contains entry.write.inode = false)
      (hfirst : ∀ earlier ∈ before, earlier.admission = false →
        rounded.errors.contains earlier.write.inode = true) :
      Moves limits system (some (.started entry.write))
        { rounded with
          entries := before ++ after
          active := some (entry.write.inode, entry.sequence) }
        (.running entry) []
  | finish {entry} (result) (hworker : system.worker = .running entry) :
      Moves limits system (some (.finished entry.write result))
        (system.state.finish entry result) .idle []
  | retry (inode) (hopen : system.state.closed = false) : Moves limits system none
        { system.state with errors := system.state.errors.erase inode }
        system.worker []
  | refuse {call : Call} (hcall : call.id = system.nextCall) :
      Moves limits system (some (.called call)) system.state system.worker
        [.ready call none (.error eagain)]
  | reject {recovery} (hmem : recovery ∈ system.starting) :
      Moves limits system none system.state system.worker
        [.ready recovery.call (some recovery.inode) (.error eio)]
  | register {recovery} (hmem : recovery ∈ system.starting) (hopen : system.state.closed = false) :
      Moves limits system none
        (system.state.recoverStart recovery.inode recovery.ready).1
        system.worker
        (system.state.recoverStart recovery.inode recovery.ready).2
  | release (inode handle last) : Moves limits system (some (.released inode handle last))
        (system.state.releaseHandle inode handle last).1 system.worker
        (system.state.releaseHandle inode handle last).2
  | close : Moves limits system none { system.state with closing := true } system.worker []
  | empty {result} (hcloses : system.closes ≠ []) : Moves limits system (some (.emptied result))
        (system.state.closeFinish limits).1 system.worker
        (system.state.closeFinish limits).2

section Inversion

variable {limits : Limits} {system next : System} {label : Option Event}

lemma State.waitBegin_eq_ok {state : State} {changed}
    (hbegin : state.waitBegin inode retry = .ok (changed, through)) :
    state.closed = false ∧ through = state.nextSequence ∧ (changed = state ∨ ∃ file,
        changed = { state with errors := state.errors.erase file }) := by
  unfold State.waitBegin at hbegin
  split at hbegin
  · cases hbegin
  next h =>
    obtain ⟨rfl, rfl⟩ := Prod.mk.inj (Except.ok.inj hbegin)
    refine ⟨Bool.eq_false_of_not_eq_true h, rfl, ?_⟩
    split
    · split
      · exact .inr ⟨_, rfl⟩
      · exact .inl rfl
    · exact .inl rfl

/-- A step calls a waiting callback and leaves the queue alone, or it moves the
queue and adds the callbacks to be called. -/
lemma Step.moves (hstep : Step limits system label next) :
    (∃ before notice after, system.outbox = before ++ notice :: after ∧
      next.outbox = before ++ after ∧ label = some notice.event ∧
      next.state = system.state ∧ next.worker = system.worker ∧ next.nextWrite = system.nextWrite) ∨
    ∃ notices, Moves limits system label next.state next.worker notices ∧
      next.outbox = system.outbox ++ notices ∧ next.nextWrite = system.nextWrite +
        (match label with | some (.submitted _) => 1 | _ => 0) := by
  cases hstep with
  | submit hw hsb =>
    exact .inr ⟨_, .submit hw (State.submitted hsb), rfl, rfl⟩
  | deliver hot =>
    exact .inl ⟨_, _, _, hot, rfl, rfl, rfl, rfl, rfl⟩
  | round hwk hrd hnt =>
    exact .inr ⟨_, .round hwk (by rw [hwk]; rfl) hrd, rfl, rfl⟩
  | start hwk hrd hop htk =>
    obtain ⟨before, after, hen, rfl, had, her, hfs⟩ := State.take_eq_some htk
    exact .inr ⟨_, .start hwk hrd hop hen had her hfs, (append_nil _).symm, rfl⟩
  | finish result hwk =>
    exact .inr ⟨_, .finish result hwk, (append_nil _).symm, rfl⟩
  | stop hwk hrd hcl =>
    exact .inr ⟨_, .round hwk rfl hrd, (append_nil _).symm, rfl⟩
  | refuse hca hio hcn =>
    exact .inr ⟨_, .refuse hca, rfl, rfl⟩
  | @recoverStart before after recovery state notices hsa hin =>
    have hm : recovery ∈ system.starting := by
      rw [hsa]
      exact mem_append_right _ mem_cons_self
    cases hcl : system.state.closed with
    | true =>
      rw [State.recoverStart, if_pos hcl] at hin
      obtain ⟨rfl, rfl⟩ := Prod.mk.inj hin
      exact .inr ⟨_, .reject hm, rfl, rfl⟩
    | false =>
      have hmv : Moves limits system none _ _ _ := .register hm hcl
      rw [hin] at hmv
      exact .inr ⟨_, hmv, rfl, rfl⟩
  | waitBegin hwa hbg =>
    obtain ⟨hop, _, rfl | ⟨inode, rfl⟩⟩ := State.waitBegin_eq_ok hbg
    · exact .inr ⟨_, .rest rfl, (append_nil _).symm, rfl⟩
    · exact .inr ⟨_, .retry inode hop, (append_nil _).symm, rfl⟩
  | @release inode handle last state notices hrl =>
    have hmv : Moves limits system _ _ _ _ := .release inode handle last
    rw [hrl] at hmv
    exact .inr ⟨_, hmv, rfl, rfl⟩
  | closeCall hop =>
    exact .inr ⟨_, .close, (append_nil _).symm, rfl⟩
  | @closeFinish before after drained result state notices hcs hrs
      hfn =>
      have hmv : Moves limits system (some (.emptied result)) _ _ _ := .empty (by rw [hcs]; simp)
      rw [hfn] at hmv
      exact .inr ⟨_, hmv, rfl, rfl⟩
  | _ => exact .inr ⟨_, .rest rfl, (append_nil _).symm, rfl⟩

lemma Step.nextCall (hstep : Step limits system label next) :
    (∃ call, label = some (.called call) ∧ call.id = system.nextCall ∧
      next.nextCall = system.nextCall + 1) ∨
    (∀ call, label ≠ some (.called call)) ∧ next.nextCall = system.nextCall := by
  cases hstep with
  | refuse hcl hin hcn | waitCall hcl => exact .inl ⟨_, rfl, hcl, rfl⟩
  | recover hcn hrc => exact .inl ⟨_, rfl, rfl, rfl⟩
  | @deliver before after notice hot =>
    refine .inr ⟨fun call heq => ?_, rfl⟩
    cases notice <;> cases heq
  | _ => exact .inr ⟨by simp, rfl⟩

end Inversion

end AgentDx.Fuse
