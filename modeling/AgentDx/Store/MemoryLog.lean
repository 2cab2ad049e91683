import AgentDx.Lib.Run
import AgentDx.Store.FrameChain

/-!
# The volatile operation log

The log keeps encoded frames.  Appending encodes a batch behind the current
position, a checkpoint replaces a prefix of the frames by an image of the state
they lead to, and recovery decodes what is left.  Decoding starts at the position
the checkpoint covers, so recovery returns the checkpoint and the records that
were appended after it.
-/

namespace AgentDx.Store

open Bytes Word Transition Result List

/-- What is checked about the image of a state: it is within the limit, well
formed, and belongs to a revision. -/
class Images where
  validateEncoded : List UInt8 → ℕ → Result ℕ

structure RecoveredCheckpoint where
  covered : LogTip
  bytes : List UInt8
  deriving DecidableEq

structure RecoveredLog (R : Type) where
  checkpoint : Option RecoveredCheckpoint
  tip : LogTip
  records : List R
  deriving DecidableEq

structure MemoryLog where
  identity : StoreIdentity
  limits : LogLimits

structure MemoryState where
  checkpoint : Option RecoveredCheckpoint
  tip : LogTip
  base : LogTip
  baseRevision : ℕ
  frames : List (List UInt8)
  bytes : ℕ
  deriving DecidableEq

def MemoryState.new : MemoryState where
  checkpoint := none
  tip := .empty
  base := .empty
  baseRevision := 0
  frames := []
  bytes := 0

def imageMaxBytes : ℕ := 1024 * 1024 * 1024

section Operations

variable {R : Type} [LogRecord R] [Wire R]

/-! ## Operations -/

def replayFrames (log : MemoryLog) : LogTip → ℕ → List (List UInt8) → Result (List R × LogTip)
  | tip, _, [] => .ok ([], tip)
  | tip, revision, frame :: frames => do
      let (record, next) ←
        decodeFrame log.identity tip frame log.limits.recordMaxBytes
      ensure (LogRecord.revisionBefore record = revision) (invalidLog "memory replay revision gap")
      let (records, tip) ←
        replayFrames log next (LogRecord.revisionAfter record) frames
      return (record :: records, tip)

def recover (log : MemoryLog) (state : MemoryState) : Result (RecoveredLog R) := do
  let (records, tip) ←
    replayFrames log state.base state.baseRevision state.frames
  ensure (tip = state.tip) (invalidLog "memory log tip mismatch")
  return ⟨state.checkpoint, tip, records⟩

def appendAndSync (log : MemoryLog) (state : MemoryState) (expected : LogTip)
    (records : List R) : Result (MemoryState × LogTip) := do
  ensure (state.tip = expected) (unavailable "log compare-and-append tip changed")
  let (frames, tip, bytes) ←
    encodeBatch log.identity expected records log.limits
  let total ← okOr ((checkedAdd state.bytes bytes).filter
    (· ≤ log.limits.walMaxBytes)) (full "memory WAL byte budget exhausted")
  return ({ state with
    frames := state.frames ++ frames, tip := tip, bytes := total }, tip)

variable (R) in
/-- Position, revision and bytes behind a prefix of the frames. -/
def releaseFrames (log : MemoryLog) : LogTip → ℕ → ℕ → List (List UInt8) → Result (LogTip × ℕ × ℕ)
  | anchor, business, released, [] => .ok (anchor, business, released)
  | anchor, business, released, frame :: frames => do
      let (record, next) ← decodeFrame (R := R) log.identity anchor frame log.limits.recordMaxBytes
      ensure (LogRecord.revisionBefore record = business)
        (invalidLog "memory checkpoint revision gap")
      let released ← okOr (checkedAdd released frame.length)
        (invalidLog "memory checkpoint byte charge overflow")
      releaseFrames log next (LogRecord.revisionAfter record) released frames

/-- The position already has a checkpoint with another image. -/
def MemoryState.contradicts (state : MemoryState) (covered : LogTip) (bytes : List UInt8) : Bool :=
  state.checkpoint.any fun old => old.covered = covered && old.bytes ≠ bytes

variable (R) in
def installCheckpoint [Images] (log : MemoryLog) (state : MemoryState)
    (covered : LogTip) (bytes : List UInt8) : Result MemoryState := do
  let revision ← Images.validateEncoded bytes imageMaxBytes
  ensure (covered.sequence ≤ state.tip.sequence && state.base.sequence ≤ covered.sequence)
    (invalidLog "memory checkpoint position invalid")
  let count := covered.sequence - state.base.sequence
  ensure (count ≤ state.frames.length) (invalidLog "memory checkpoint missing prefix")
  let (anchor, business, released) ← releaseFrames R log state.base
    state.baseRevision 0 (state.frames.take count)
  ensure (anchor = covered && business = revision)
    (invalidLog "memory checkpoint anchor/revision mismatch")
  ensure (!state.contradicts covered bytes)
    (invalidLog "same checkpoint position has different state")
  let remaining ← okOr (checkedSub state.bytes released)
    (invalidLog "memory checkpoint byte charge underflow")
  return { state with
    checkpoint := some ⟨covered, bytes⟩
    frames := state.frames.drop count
    base := covered
    baseRevision := revision
    bytes := remaining }

/-! ## Runs -/

inductive MemoryEvent (R : Type) where
  | append (records : List R)
  | install (covered : LogTip) (bytes : List UInt8)
  | refused

/-- One call on the log.  A refused call changes nothing. -/
inductive MemoryStep [Images] (log : MemoryLog) :
    MemoryState → MemoryEvent R → MemoryState → Prop where
  | append {before after expected tip records}
      (happend : appendAndSync log before expected records = .ok (after, tip)) :
      MemoryStep log before (.append records) after
  | install {before after covered bytes}
      (hinstall : installCheckpoint R log before covered bytes = .ok after) :
      MemoryStep log before (.install covered bytes) after
  | refusedAppend {before : MemoryState} {expected : LogTip} {records : List R}
      {error : Error}
      (happend : appendAndSync log before expected records = .error error) :
      MemoryStep log before .refused before
  | refusedInstall {before covered bytes error}
      (hinstall : installCheckpoint R log before covered bytes = .error error) :
      MemoryStep log before .refused before

/-- The records an event appends. -/
def MemoryEvent.records : MemoryEvent R → List R
  | .append records => records
  | .install _ _ | .refused => []

/-- The checkpoint in force after an event. -/
def MemoryEvent.checkpoint (last : Option RecoveredCheckpoint) :
    MemoryEvent R → Option RecoveredCheckpoint
  | .install covered bytes => some ⟨covered, bytes⟩
  | .append _ | .refused => last

def appended (events : List (MemoryEvent R)) : List R := events.flatMap MemoryEvent.records

def lastCheckpoint (events : List (MemoryEvent R)) : Option RecoveredCheckpoint :=
  events.foldl MemoryEvent.checkpoint none

/-- The position a checkpoint covers; without one, the empty log. -/
def coveredTip (checkpoint : Option RecoveredCheckpoint) : LogTip :=
  (checkpoint.map RecoveredCheckpoint.covered).getD .empty

/-- Each record starts at the revision the one before it ends at. -/
def Continues : ℕ → List R → Prop
  | _, [] => True
  | revision, record :: records =>
    LogRecord.revisionBefore record = revision ∧ Continues (LogRecord.revisionAfter record) records

instance decidableContinues : ∀ (revision : ℕ) (records : List R),
    Decidable (Continues revision records)
  | _, [] => isTrue trivial
  | _, record :: records =>
    have := decidableContinues (LogRecord.revisionAfter record) records
    inferInstanceAs (Decidable (_ ∧ _))

def finalRevision (revision : ℕ) (records : List R) : ℕ :=
  records.foldl (fun _ record => LogRecord.revisionAfter record) revision

omit [Wire R] in
lemma continues_append {first second : List R} : Continues revision (first ++ second) ↔
      Continues revision first ∧ Continues (finalRevision revision first) second := by
  induction first generalizing revision with
  | nil => simp [Continues, finalRevision]
  | cons record first ih =>
    rw [cons_append, Continues, Continues, ih, and_assoc]
    rfl

end Operations

section Recovery

variable {R : Type} [LogRecord R] [Wire R] [LawfulWire R]
variable {log : MemoryLog} {tip last : LogTip} {records history : List R}
variable {frames : List (List UInt8)} {state after : MemoryState}

lemma Chain.replay {revision}
    (hchain : Chain log.identity log.limits.recordMaxBytes tip records frames last)
    (hcont : Continues revision records) :
    replayFrames log tip revision frames = .ok (records, last) := by
  induction hchain generalizing revision with
  | nil => rfl
  | cons first _ ih =>
    obtain ⟨hrev, hrest⟩ := hcont
    simp only [replayFrames, bind_eq_ok, ensure_eq_ok, decide_eq_true_eq]
    exact ⟨_, first.decode, (), hrev, _, ih hrest, rfl⟩

lemma Chain.release (hchain : Chain log.identity log.limits.recordMaxBytes tip records frames last)
    (hrelease : releaseFrames R log tip business released frames = .ok (anchor, revision, total)) :
    anchor = last ∧ revision = finalRevision business records := by
  induction hchain generalizing business released with
  | nil =>
    cases hrelease
    exact ⟨rfl, rfl⟩
  | cons first _ ih =>
    simp only [releaseFrames, bind_eq_ok, ensure_eq_ok] at hrelease
    obtain ⟨decoded, hdecode, _, _, _, _, hrest⟩ := hrelease
    rw [first.decode] at hdecode
    cases hdecode
    exact ih hrest

/-! ## What the log holds -/

/-- The frames are the records behind the base, and the base revision is the one
the records before the base lead to. -/
structure Logged (log : MemoryLog) (history : List R) (state : MemoryState) : Prop where
  chain : Chain log.identity log.limits.recordMaxBytes state.base
    (history.drop state.base.sequence) state.frames state.tip
  covered : state.base.sequence ≤ history.length
  revision : state.baseRevision = finalRevision 0 (history.take state.base.sequence)
  anchored : state.base = coveredTip state.checkpoint

omit [LawfulWire R] in
lemma logged_new : Logged log ([] : List R) .new where
  chain := .nil _
  covered := le_rfl
  revision := rfl
  anchored := rfl

omit [LawfulWire R] in
lemma Logged.append (hlogged : Logged log history state)
    (happend : appendAndSync log state expected records = .ok (after, tip)) :
    Logged log (history ++ records) after ∧ after.checkpoint = state.checkpoint := by
  simp only [appendAndSync, encodeBatch, bind_eq_ok, ensure_eq_ok,
    decide_eq_true_eq, Prod.exists, pure_eq_ok] at happend
  obtain ⟨_, rfl, frames, last, bytes, ⟨_, _, hencode⟩, total, _, hout⟩ := happend
  cases hout
  have hdrop : (history ++ records).drop state.base.sequence =
      history.drop state.base.sequence ++ records :=
    drop_append_of_le_length hlogged.covered
  have htake : (history ++ records).take state.base.sequence = history.take state.base.sequence :=
    take_append_of_le_length hlogged.covered
  refine ⟨⟨?_, ?_, ?_, hlogged.anchored⟩, rfl⟩
  · rw [hdrop]
    exact hlogged.chain.append (encodeFrames_ok hencode)
  · rw [length_append]
    exact hlogged.covered.trans (Nat.le_add_right _ _)
  · rw [htake]
    exact hlogged.revision

lemma Logged.install [Images] {covered} (hlogged : Logged log history state)
    (hinstall : installCheckpoint R log state covered bytes = .ok after) :
    Logged log history after ∧ after.checkpoint = some ⟨covered, bytes⟩ := by
  simp only [installCheckpoint, bind_eq_ok, ensure_eq_ok,
    decide_eq_true_eq, Bool.and_eq_true, Prod.exists, pure_eq_ok]
    at hinstall
  obtain ⟨revision, _, _, ⟨_, hbase⟩, _, hnum, anchor, business, released,
    hrelease, _, ⟨rfl, rfl⟩, _, _, remaining, _, rfl⟩ := hinstall
  obtain ⟨middle, hpre, hpost⟩ := hlogged.chain.cut (anchor.sequence - state.base.sequence)
  obtain ⟨rfl, hrev⟩ := hpre.release hrelease
  have hadd : state.base.sequence + (anchor.sequence - state.base.sequence) =
      anchor.sequence := Nat.add_sub_cancel' hbase
  have hlen := hlogged.chain.length_eq
  rw [length_drop] at hlen
  refine ⟨⟨?_, ?_, ?_, rfl⟩, rfl⟩
  · rw [drop_drop, hadd] at hpost
    exact hpost
  · have := hlogged.covered
    show anchor.sequence ≤ history.length
    omega
  · calc business
        = finalRevision (finalRevision 0 (history.take state.base.sequence))
            ((history.drop state.base.sequence).take (anchor.sequence - state.base.sequence)) := by
          rw [hrev, hlogged.revision]
      _ = finalRevision 0 (history.take anchor.sequence) := by
          rw [finalRevision, finalRevision, ← foldl_append, ← take_add, hadd]
          rfl

lemma run_logged [Images] {events : List (MemoryEvent R)}
    (hrun : Run (MemoryStep log) .new events state) :
    Logged log (appended events) state ∧ state.checkpoint = lastCheckpoint events := by
  induction hrun with
  | refl => exact ⟨logged_new, rfl⟩
  | @snoc _ _ events label _ hlast ih =>
    obtain ⟨hlogged, hcheckpoint⟩ := ih
    rw [appended, flatMap_append, flatMap_singleton, lastCheckpoint,
      foldl_append, foldl_cons, foldl_nil]
    change Logged log (appended events ++ label.records) _ ∧
      _ = label.checkpoint (lastCheckpoint events)
    rw [← hcheckpoint]
    cases hlast with
    | append happend => exact hlogged.append happend
    | install hinstall =>
      rw [MemoryEvent.records, append_nil]
      exact hlogged.install hinstall
    | refusedAppend | refusedInstall =>
      rw [MemoryEvent.records, append_nil]
      exact ⟨hlogged, rfl⟩

lemma Logged.recover (hlogged : Logged log history state) (hcont : Continues 0 history) :
    recover log state = .ok ⟨state.checkpoint, state.tip,
      history.drop (coveredTip state.checkpoint).sequence⟩ := by
  rw [← take_append_drop state.base.sequence history, continues_append, ← hlogged.revision] at hcont
  simp only [Store.recover, bind_eq_ok, ensure_eq_ok, decide_eq_true_eq]
  refine ⟨_, hlogged.chain.replay hcont.2, (), rfl, ?_⟩
  rw [← hlogged.anchored]
  rfl

/-- A frame of a batch is read back only in its own log and behind the frames
before it, and its size is the one computed in advance. -/
lemma Chain.frame {limit frame}
    (hchain : Chain identity limit tip records (earlier ++ frame :: later) last) :
    ∃ (before : List R) (middle next : LogTip) (record : R),
      decodeFrames identity limit tip earlier = .ok (before, middle) ∧
      records[earlier.length]? = some record ∧ frameSize middle record = .ok frame.length ∧
      ∀ otherIdentity otherTip otherLimit accepted,
        decodeFrame otherIdentity otherTip frame otherLimit = .ok accepted →
          otherIdentity = identity ∧ otherTip = middle ∧ accepted = (record, next) := by
  obtain ⟨middle, hpre, hpost⟩ := hchain.cut earlier.length
  rw [take_left] at hpre
  rw [drop_left] at hpost
  generalize hrest : records.drop earlier.length = rest at hpost
  cases hpost with
  | @cons _ next _ record _ more _ first _ =>
    refine ⟨_, middle, next, record, hpre.decode, ?_, first.frameSize, ?_⟩
    · rw [← head?_drop, hrest, head?_cons]
    · intro otherIdentity otherTip otherLimit accepted haccepted
      obtain ⟨_, hidentity, htip, hrec, hnext⟩ :=
        first.decode_iff.mp haccepted
      exact ⟨hidentity, htip, Prod.ext hrec hnext⟩

variable (R) in
/-- Batches are read back as they were written, only where they were written,
and the log recovers its last checkpoint and the records behind it. -/
theorem log_chain_recovers [Images] :
    (∀ (identity : StoreIdentity) (tip last : LogTip) (limits : LogLimits)
        (records : List R) (frames : List (List UInt8)) (total : ℕ),
      encodeBatch identity tip records limits = .ok (frames, last, total) →
        decodeFrames identity limits.recordMaxBytes tip frames = .ok (records, last) ∧
        ∀ earlier frame later, frames = earlier ++ frame :: later →
          ∃ (before : List R) (middle next : LogTip) (record : R),
            decodeFrames identity limits.recordMaxBytes tip earlier = .ok (before, middle) ∧
            records[earlier.length]? = some record ∧ frameSize middle record = .ok frame.length ∧
            ∀ otherIdentity otherTip otherLimit accepted,
              decodeFrame otherIdentity otherTip frame otherLimit = .ok accepted →
                otherIdentity = identity ∧ otherTip = middle ∧ accepted = (record, next)) ∧
    ∀ (log : MemoryLog) (events : List (MemoryEvent R)) (state : MemoryState),
      Run (MemoryStep log) .new events state → Continues 0 (appended events) →
        recover log state = .ok ⟨lastCheckpoint events, state.tip,
          (appended events).drop (coveredTip (lastCheckpoint events)).sequence⟩ := by
  constructor
  · intro identity tip last limits records frames total hencode
    simp only [encodeBatch, bind_eq_ok] at hencode
    obtain ⟨_, _, hencode⟩ := hencode
    have hchain := encodeFrames_ok hencode
    refine ⟨hchain.decode, ?_⟩
    rintro earlier frame later rfl
    exact hchain.frame
  · intro log events state hrun hcontinues
    obtain ⟨hlogged, hcheckpoint⟩ := run_logged hrun
    rw [← hcheckpoint]
    exact hlogged.recover hcontinues

end Recovery

/-! ## A small log -/

/-- A record that only says which revisions it lies between. -/
structure Span where
  before : UInt8
  after : UInt8
  deriving DecidableEq

instance : LogRecord Span where
  validate _ := .ok ()
  revisionBefore span := span.before.toNat
  revisionAfter span := span.after.toNat

instance : Wire Span where
  recordBytes span := [span.before, span.after]
  readRecord
    | before :: after :: rest => some (⟨before, after⟩, rest)
    | _ => none
  blake3 bytes := BitVec.ofNat _ (fromBigEndian bytes)
  crc32c bytes := UInt32.ofNat (fromBigEndian bytes)
  crc32cAppend sum bytes := sum + UInt32.ofNat (fromBigEndian bytes)

instance : LawfulWire Span where
  roundTrip _ _ := rfl

/-- An image is the revision it belongs to. -/
abbrev byteImages : Images where
  validateEncoded
    | [revision], _ => .ok revision.toNat
    | _, _ => .error (invalidContract "checkpoint trailing bytes")

def spanLog : MemoryLog := ⟨⟨1, 2, 3⟩, ⟨4096, 8192, 65536⟩⟩

def spanAppend (state : MemoryState) (records : List Span) : MemoryState × LogTip :=
  (appendAndSync spanLog state state.tip records).toOption.getD (state, .empty)

/-- Two records, of which the first is covered by a checkpoint, and a third. -/
def spanStates : MemoryState × MemoryState × MemoryState :=
  letI := byteImages
  let first := (spanAppend .new [⟨0, 1⟩]).1
  let second := (spanAppend first [⟨1, 3⟩, ⟨3, 3⟩]).1
  let third := (installCheckpoint Span spanLog second first.tip [1]).toOption
  (first, second, third.getD second)

theorem spanStates_recover : recover spanLog spanStates.2.2 = .ok (⟨some ⟨spanStates.1.tip, [1]⟩,
      spanStates.2.1.tip, [⟨1, 3⟩, ⟨3, 3⟩]⟩ : RecoveredLog Span) := by
  let _ := byteImages
  have hone : appendAndSync spanLog .new .empty [(⟨0, 1⟩ : Span)] =
      .ok (spanStates.1, spanStates.1.tip) := by decide +kernel
  have htwo : appendAndSync spanLog spanStates.1 spanStates.1.tip
      [(⟨1, 3⟩ : Span), ⟨3, 3⟩] = .ok (spanStates.2.1, spanStates.2.1.tip) := by decide +kernel
  have hthird : installCheckpoint Span spanLog spanStates.2.1
      spanStates.1.tip [1] = .ok spanStates.2.2 := by decide +kernel
  have hrun : Run (MemoryStep spanLog) .new _ spanStates.2.2 :=
    .snoc (.snoc (.snoc (.refl _) (.append hone)) (.append htwo)) (.install hthird)
  have htip : spanStates.2.2.tip = spanStates.2.1.tip := by decide +kernel
  have hsequence : spanStates.1.tip.sequence = 1 := by decide +kernel
  have hrecover := (log_chain_recovers Span).2 spanLog _ _ hrun (by decide +kernel)
  rw [htip] at hrecover
  simpa [appended, lastCheckpoint, coveredTip, MemoryEvent.records,
    MemoryEvent.checkpoint, hsequence] using hrecover

/-- A record that does not start at the revision of the log is appended, and
recovery refuses it. -/
theorem gap_refuses_recovery :
    appendAndSync spanLog .new .empty [(⟨5, 6⟩ : Span)] = .ok (spanAppend .new [⟨5, 6⟩]) ∧
      (recover spanLog (spanAppend .new [⟨5, 6⟩]).1 : Result (RecoveredLog Span))
        = .error (invalidLog "memory replay revision gap") := by
  decide +kernel

end AgentDx.Store
