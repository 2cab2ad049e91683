import AgentDx.Store.MemoryLog
import AgentDx.Store.WatchStream

/-!
# Reopening a store

The log holds what the store published.  Each record begins at the revision the
one before it ends at, so the log is read back, and what is read back leads from
the state at the checkpoint to the state published last.
-/

namespace AgentDx.Store

open List hiding next
open Transition Result State

section Reopen

variable [Footprint] {state next : State}

lemma State.applyHistory_revision (hap : state.applyHistory delta = .ok next) :
    delta.revision = state.revision ∧ next.revision = state.revision := by
  obtain ⟨indexed, _, _, _, happ⟩ := applyHistory_applied hap
  obtain ⟨hpr, _, _⟩ := ensureHistoryIndex_persisted happ.ensured
  have hrv : indexed.revision = state.revision := congrArg Persisted.revision hpr
  obtain ⟨_, _, _, _, hrt⟩ := retireRequests_frame happ.retires
  rw [happ.next_eq, hrt]
  exact ⟨happ.revision_eq, hrv⟩

variable [Codec]

lemma State.replayDecision_revision (hredo : state.replayDecision decided = .ok next) :
    decided.revisionBefore = state.revision := by
  obtain ⟨facts, hfc, hredo⟩ := bind_eq_ok.mp hredo
  obtain ⟨_, hrv, _⟩ := bind_eq_ok.mp hredo
  simp only [RecordDecision.facts, bind_eq_ok] at hfc
  obtain ⟨_, _, _, _, _, _, _, _, hfc⟩ := hfc
  cases hfc
  simpa using hrv

/-- A record names the revisions its step leads from and to. -/
lemma Publishes.revisions {record} (hinv : state.Sound)
    (hstep : Publishes SpareFree state record next) :
    record.revisionBefore = state.revision ∧ record.revisionAfter = next.revision := by
  cases hstep with
  | decided hfr hpp =>
    obtain ⟨hrp, _, _, hrv⟩ := hinv.prepare_replay hfr hpp
    exact ⟨replayDecision_revision hrp, hrv⟩
  | retained hfr hpp hrt =>
    obtain ⟨hrp, _, _, hrv⟩ := hinv.prepare_replay hfr hpp
    exact ⟨replayDecision_revision hrp, hrv.trans (applyHistory_revision hrt).2.symm⟩
  | history hrt =>
    obtain ⟨hdl, hnx⟩ := applyHistory_revision hrt
    exact ⟨hdl, hdl.trans hnx.symm⟩

variable {R : Type} [LogRecord R] {view : R → Record}

/-- What the log keeps of a record has the revisions of the record. -/
def Stands (view : R → Record) (records : List R) : Prop :=
  ∀ record ∈ records, LogRecord.revisionBefore record = (view record).revisionBefore ∧
    LogRecord.revisionAfter record = (view record).revisionAfter

lemma published_continues {records} (hview : Stands view records)
    (hrun : Run (Publishes SpareFree) State.default (records.map view) state) :
    Continues 0 records ∧ finalRevision 0 records = state.revision := by
  induction records using List.reverseRecOn generalizing state with
  | nil =>
    obtain rfl := hrun.of_nil
    exact ⟨trivial, rfl⟩
  | append_singleton records record ih =>
    rw [map_append] at hrun
    obtain ⟨before, hb, hls⟩ := hrun.of_snoc
    obtain ⟨hv, hl⟩ := forall_mem_append.mp hview
    obtain ⟨hcn, hfn⟩ := ih hv hb
    obtain ⟨hvb, hva⟩ := hl record (mem_singleton_self _)
    obtain ⟨hbf, haf⟩ := hls.revisions (reachable_sound hb)
    refine ⟨continues_append.mpr ⟨hcn, ?_, trivial⟩, ?_⟩
    · rw [hvb, hbf, hfn]
    · rw [finalRevision, foldl_append]
      exact hva.trans haf

/-- A log that kept what was published, whatever checkpoints were installed and
calls refused meanwhile, is read back, and replaying what is read back leads from
the state at the checkpoint, whose revision the log knows, to the last state. -/
theorem reopening_rebuilds_state [Wire R] [LawfulWire R] [Images] {log : MemoryLog}
    {events : List (MemoryEvent R)} {memory} (hview : Stands view (appended events))
    (hlog : Run (MemoryStep log) .new events memory)
    (hrun : Run (Publishes SpareFree) State.default ((appended events).map view) state) :
    ∃ covered records, recover log memory = .ok ⟨lastCheckpoint events, memory.tip, records⟩ ∧
      Run (Publishes SpareFree) State.default (((appended events).take
        (coveredTip (lastCheckpoint events)).sequence).map view) covered ∧
      covered.revision = memory.baseRevision ∧
      (records.map view).foldlM State.replayRecord covered = .ok state := by
  obtain ⟨hlg, hce⟩ := run_logged hlog
  have hrc := hlg.recover (published_continues hview hrun).1
  have hrv := hlg.revision
  rw [hlg.anchored] at hrv
  rw [hce] at hrc hrv
  rw [← take_append_drop (coveredTip (lastCheckpoint events)).sequence (appended events),
    map_append] at hrun
  obtain ⟨covered, hfs, hls⟩ := hrun.of_append
  have hvw := published_continues (fun record hm => hview record (mem_of_mem_take hm)) hfs
  refine ⟨covered, _, hrc, hfs, hvw.2.symm.trans hrv.symm, ?_⟩
  exact hls.replay (fun hs hst => (hst.replayRecord hs).2)
    (fun hs hst => (hst.replayRecord hs).1) (reachable_sound hfs)

end Reopen

/-- Another deletion, by a later request. -/
def laterTxn : MetaTxn where
  request := ⟨"caller", "later"⟩
  operation := .dfsCollectGarbage
  conditions := [.requestAbsent ⟨"caller", "later"⟩]
  mutations := [.delete ⟨.dfsInode "8", 0⟩,
    .recordRequestOutcome (.exact ⟨⟨"caller", "later"⟩, .dfsCollectGarbage, .empty⟩)]

section Sample

variable [Footprint] [Codec]

def committed (state : State) (txn : MetaTxn) : Result (State × RecordDecision) := do
  match ← state.prepare (fun _ => 0) (.transaction txn) 1 65536 with
  | (next, .committed _ _, some record) => return (next, record)
  | _ => .error (invalidContract "not committed")

lemma committed_publishes {state next : State} {txn} {record : RecordDecision}
    (hdone : committed state txn = .ok (next, record))
    (hfree : SpareFree state (.transaction txn)) :
    Publishes SpareFree state (.decision record none) next := by
  obtain ⟨⟨_, outcome, decided⟩, hprep, hdone⟩ := bind_eq_ok.mp hdone
  rcases outcome with ⟨revision, reply⟩ | ⟨_, _⟩ <;> rcases decided with _ | decided <;> cases hdone
  exact .decided hfree hprep

end Sample

/-- Two deletions are logged, and a checkpoint covers the first. -/
def deletionStates : MemoryState × MemoryState × MemoryState :=
  letI := byteImages
  let first := (spanAppend .new [⟨0, 1⟩]).1
  let second := (spanAppend first [⟨1, 2⟩]).1
  (first, second, (installCheckpoint Span spanLog second first.tip [1]).toOption.getD second)

/-- The store is reopened at the checkpoint, and the second deletion is replayed. -/
theorem deletions_reopened : letI := plainFootprint
    letI := plainCodec
    ∃ (view : Span → Record) (covered state : State) (records : List Span),
      recover spanLog deletionStates.2.2 =
        .ok ⟨some ⟨deletionStates.1.tip, [1]⟩, deletionStates.2.2.tip, records⟩ ∧
      covered.revision = 1 ∧ state.revision = 2 ∧
      (records.map view).foldlM State.replayRecord covered = .ok state := by
  let _ := plainFootprint
  let _ := plainCodec
  let _ := byteImages
  have hrevs : (do
      let (one, _) ← committed State.default (deletingTxn 0)
      let (two, _) ← committed one laterTxn
      return (one.revision, two.revision)) = .ok (1, 2) := by decide +kernel
  simp only [bind_eq_ok] at hrevs
  obtain ⟨⟨one, first⟩, hfirst, ⟨two, second⟩, hsecond, hrevs⟩ := hrevs
  obtain ⟨hone, htwo⟩ := Prod.mk.inj (Except.ok.inj hrevs)
  have hpublish := committed_publishes hfirst rfl
  have hnext := committed_publishes hsecond rfl
  have happend : appendAndSync spanLog .new .empty [(⟨0, 1⟩ : Span)] =
      .ok (deletionStates.1, deletionStates.1.tip) := by decide +kernel
  have hextend : appendAndSync spanLog deletionStates.1 deletionStates.1.tip [(⟨1, 2⟩ : Span)] =
      .ok (deletionStates.2.1, deletionStates.2.1.tip) := by decide +kernel
  have hinstall : installCheckpoint Span spanLog deletionStates.2.1
      deletionStates.1.tip [1] = .ok deletionStates.2.2 := by decide +kernel
  let events : List (MemoryEvent Span) :=
    [.append [⟨0, 1⟩], .append [⟨1, 2⟩], .install deletionStates.1.tip [1]]
  have hlog : Run (MemoryStep spanLog) .new events deletionStates.2.2 :=
    .snoc (.snoc (.snoc (.refl _) (.append happend)) (.append hextend)) (.install hinstall)
  let view (span : Span) : Record := .decision (if span.before = 0 then first else second) none
  have hstate : Run (Publishes SpareFree) State.default ((appended events).map view) two :=
    .snoc (.snoc (.refl _) hpublish) hnext
  have hview : Stands view (appended events) := by
    have hinv := reachable_sound (.snoc (.refl State.default) hpublish)
    obtain ⟨hpre, hpost⟩ := hpublish.revisions .default
    obtain ⟨hbetween, hlast⟩ := hnext.revisions hinv
    rw [hone] at hpost hbetween
    rw [htwo] at hlast
    exact forall_mem_cons.mpr ⟨⟨hpre.symm, hpost.symm⟩,
      forall_mem_singleton.mpr ⟨hbetween.symm, hlast.symm⟩⟩
  obtain ⟨covered, records, hrecover, -, hcovered, hredo⟩ :=
    reopening_rebuilds_state hview hlog hstate
  exact ⟨view, covered, two, records, hrecover, hcovered.trans (by decide +kernel), htwo, hredo⟩

end AgentDx.Store
