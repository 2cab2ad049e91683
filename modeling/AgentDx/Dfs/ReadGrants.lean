import AgentDx.Lib.Intervals
import AgentDx.Dfs.Clone

/-!
# Read grants of a chunk

A read grant names the parts of a chunk that the bytes of a file come from.  The
extents of the layout are clipped by the length of the file and merged.
-/

namespace AgentDx.Dfs

open List Intervals

section Intervals

variable (layout : LayoutRoot) (chunk : ChunkObject)

/-- The part of an extent that lies within the file, by its bytes in the chunk. -/
def clipped (extent : Extent) : ℕ × ℕ :=
  (extent.chunkOffset,
    extent.chunkOffset + min extent.length (layout.fileLength - extent.fileOffset))

/-- The extents are checked one by one, with one error for each of them. -/
def readChunkIntervals : Result (List (ℕ × ℕ)) := do
  let intervals := (layout.inlineExtents.filter (·.chunkId = chunk.id)).map (clipped layout)
  ensure (intervals.all fun interval => interval.2 < 2 ^ 64 && interval.2 ≤ chunk.length)
    (invalid "read layout extent exceeds immutable chunk")
  let sorted := (intervals.filter fun interval => interval.1 < interval.2).insertionSort
    fun left right => toLex left ≤ toLex right
  return (Intervals.merge sorted).map fun (start, stop) => (start, stop - start)

def readRangeCovered (intervals : List (ℕ × ℕ)) (offset length : ℕ) : Bool :=
  length ≠ 0 && offset + length < 2 ^ 64 && intervals.any fun (start, count) =>
    start ≤ offset && start + count < 2 ^ 64 && offset + length ≤ start + count

/-- The byte of the chunk stands for a byte of the file. -/
def Readable (byte : ℕ) : Prop :=
  ∃ position < layout.fileLength, ∃ extent ∈ layout.inlineExtents,
    extent.Maps position (chunk.id, byte)

end Intervals

variable {layout : LayoutRoot} {chunk : ChunkObject} {byte : ℕ}

lemma readable_iff : Readable layout chunk byte ↔
    Covered ((layout.inlineExtents.filter (·.chunkId = chunk.id)).map (clipped layout)) byte := by
  constructor
  · rintro ⟨position, hps, extent, hex, ⟨hfr, hto⟩, hvl⟩
    obtain ⟨hch, rfl⟩ := Prod.mk.inj hvl
    refine ⟨_, mem_map_of_mem (mem_filter.mpr ⟨hex, by simpa using hch⟩), ?_⟩
    simp only [Extent.stop] at hto
    simp only [clipped]
    omega
  · rintro ⟨_, hin, hfr, hto⟩
    obtain ⟨extent, hex, rfl⟩ := mem_map.mp hin
    obtain ⟨hex, hch⟩ := mem_filter.mp hex
    simp only [clipped] at hfr hto
    refine ⟨extent.fileOffset + (byte - extent.chunkOffset), by omega, extent, hex, ⟨?_, ?_⟩,
      Prod.ext (of_decide_eq_true hch) ?_⟩
    · omega
    · simp only [Extent.stop]
      omega
    · simp only [Extent.chunkByte]
      omega

lemma readChunkIntervals_eq_ok {intervals : List (ℕ × ℕ)}
    (hread : readChunkIntervals layout chunk = .ok intervals) :
    ∃ merged : List (ℕ × ℕ), intervals = merged.map (fun (start, stop) => (start, stop - start)) ∧
      Separated merged ∧ (∀ byte, Covered merged byte ↔ Readable layout chunk byte) ∧
      ∀ byte, Readable layout chunk byte → byte < chunk.length := by
  obtain ⟨_, hins, hread⟩ := Result.bind_eq_ok.mp hread
  cases hread
  rw [ensure_eq_ok, all_eq_true] at hins
  refine ⟨_, rfl, ?_⟩
  generalize hcl : (layout.inlineExtents.filter (·.chunkId = chunk.id)).map (clipped layout) =
    intervals at hins ⊢
  have hre : ∀ byte, Readable layout chunk byte ↔ Covered intervals byte := by
    intro byte
    rw [readable_iff, hcl]
  obtain ⟨hsp, hcv⟩ := @merge_spec _ _
    ((intervals.filter fun interval => interval.1 < interval.2).insertionSort
      fun left right => toLex left ≤ toLex right)
    (fun interval hin => by simpa using (mem_filter.mp ((mem_insertionSort _).mp hin)).2)
    ((pairwise_insertionSort _ _).imp fun hle => by
      rcases Prod.Lex.toLex_le_toLex.mp hle with hlt | heq
      · exact hlt.le
      · exact heq.1.le)
  refine ⟨hsp, fun byte => (hcv byte).trans ?_, fun byte hby => ?_⟩
  · rw [hre]
    simp only [Covered, mem_insertionSort, mem_filter, decide_eq_true_eq]
    constructor
    · rintro ⟨interval, ⟨hin, -⟩, hcv⟩
      exact ⟨interval, hin, hcv⟩
    · rintro ⟨interval, hin, hfr, hto⟩
      exact ⟨interval, ⟨hin, hfr.trans_lt hto⟩, hfr, hto⟩
  · obtain ⟨interval, hin, -, hto⟩ := (hre byte).mp hby
    have hen := hins interval hin
    simp only [Bool.and_eq_true, decide_eq_true_eq] at hen
    exact hto.trans_le hen.2

lemma readChunkIntervals_error (hword : chunk.length < 2 ^ 64) :
    (∃ error, readChunkIntervals layout chunk = .error error) ↔
      (∃ byte, Readable layout chunk byte ∧ chunk.length ≤ byte) ∨
      ∃ extent ∈ layout.inlineExtents, extent.chunkId = chunk.id ∧
        (∀ position < layout.fileLength, ¬extent.Covers position) ∧
        chunk.length < extent.chunkOffset := by
  have hch : (∃ error, readChunkIntervals layout chunk = .error error) ↔
      ∃ extent ∈ layout.inlineExtents, extent.chunkId = chunk.id ∧
        chunk.length < (clipped layout extent).2 := by
    have hal : (∃ error, readChunkIntervals layout chunk = .error error) ↔
        ¬(((layout.inlineExtents.filter (·.chunkId = chunk.id)).map (clipped layout)).all
          fun interval => interval.2 < 2 ^ 64 && interval.2 ≤ chunk.length) = true := by
      simp only [readChunkIntervals, ensure]
      split <;> simp_all [bind, Except.bind, pure, Except.pure]
    rw [hal, all_eq_true, forall_mem_map]
    simp only [mem_filter, Bool.and_eq_true, decide_eq_true_eq, not_forall, and_imp, exists_prop]
    refine exists_congr fun extent => and_congr_right fun _ => and_congr_right fun _ => ?_
    omega
  rw [hch]
  constructor
  · rintro ⟨extent, hex, hch, hby⟩
    simp only [clipped] at hby
    rcases Nat.eq_zero_or_pos (min extent.length (layout.fileLength - extent.fileOffset)) with
      hem | hps
    · refine .inr ⟨extent, hex, hch, fun position hpo hcv => ?_, by omega⟩
      have hto := hcv.2
      have hfr := hcv.1
      simp only [Extent.stop] at hto
      omega
    · refine .inl ⟨extent.chunkOffset +
        min extent.length (layout.fileLength - extent.fileOffset) - 1,
        readable_iff.mpr ⟨_, mem_map_of_mem (mem_filter.mpr ⟨hex, decide_eq_true hch⟩), ?_⟩,
        by omega⟩
      simp only [clipped]
      omega
  · rintro (⟨byte, hbe, hby⟩ | ⟨extent, hex, hch, -, hby⟩)
    · obtain ⟨_, hin, -, hto⟩ := readable_iff.mp hbe
      obtain ⟨extent, hex, rfl⟩ := mem_map.mp hin
      obtain ⟨hex, hch⟩ := mem_filter.mp hex
      exact ⟨extent, hex, of_decide_eq_true hch, by omega⟩
    · exact ⟨extent, hex, hch, hby.trans_le (Nat.le_add_right _ _)⟩

/-- The intervals are those of the readable bytes, a range is covered when all of its
bytes are readable, and the reading fails when an extent ends beyond the chunk. -/
theorem read_intervals_exact (hword : chunk.length < 2 ^ 64) :
    (∀ intervals, readChunkIntervals layout chunk = .ok intervals →
      (∀ interval ∈ intervals, 0 < interval.2) ∧
      (intervals.Pairwise fun left right => left.1 + left.2 < right.1) ∧
      (∀ byte, (∃ interval ∈ intervals, interval.1 ≤ byte ∧ byte < interval.1 + interval.2) ↔
        Readable layout chunk byte) ∧
      ∀ offset length, readRangeCovered intervals offset length = true ↔
        0 < length ∧ ∀ byte, offset ≤ byte → byte < offset + length → Readable layout chunk byte) ∧
    ((∃ error, readChunkIntervals layout chunk = .error error) ↔
      (∃ byte, Readable layout chunk byte ∧ chunk.length ≤ byte) ∨
      ∃ extent ∈ layout.inlineExtents, extent.chunkId = chunk.id ∧
        (∀ position < layout.fileLength, ¬extent.Covers position) ∧
        chunk.length < extent.chunkOffset) := by
  refine ⟨fun intervals hrd => ?_, ?_⟩
  · obtain ⟨merged, rfl, hsp, hcv, hins⟩ := readChunkIntervals_eq_ok hrd
    refine ⟨?_, ?_, fun byte => ?_, fun offset length => ?_⟩
    · rw [forall_mem_map]
      exact fun interval hin => Nat.sub_pos_of_lt (hsp.nonempty interval hin)
    · rw [pairwise_map]
      refine hsp.gaps.imp_of_mem fun hlf hrg hgp => ?_
      rw [hsp.stop_eq hlf]
      exact hgp
    · rw [hsp.exists_span fun start stop => start ≤ byte ∧ byte < stop, ← hcv]
      rfl
    · simp only [readRangeCovered, Bool.and_eq_true, decide_eq_true_eq, any_eq_true, and_assoc]
      rw [hsp.exists_span fun start stop => start ≤ offset ∧ stop < 2 ^ 64 ∧ offset + length ≤ stop,
        ← Nat.pos_iff_ne_zero]
      refine and_congr_right fun hps => ?_
      have hrn := hsp.covers_range (Nat.lt_add_of_pos_right hps : offset < offset + length)
      simp only [hcv] at hrn
      rw [hrn]
      constructor
      · rintro ⟨-, interval, hin, hfr, -, hto⟩
        exact ⟨interval, hin, hfr, hto⟩
      · rintro ⟨interval, hin, hfr, hto⟩
        -- The last byte of the interval lies within the chunk.
        have hnn := hsp.nonempty interval hin
        have hls := hins (interval.2 - 1) ((hcv _).mp ⟨interval, hin, by omega, by omega⟩)
        exact ⟨by omega, interval, hin, hfr, by omega, hto⟩
  · exact readChunkIntervals_error hword

/-- Two extents that touch in the chunk, the second one beyond the end of the file. -/
def sampleLayout : LayoutRoot := ⟨"l", 6, [⟨4, 8, "c", 4⟩, ⟨0, 4, "c", 0⟩]⟩

def sampleChunk : ChunkObject := ⟨"c", 8, ⟨.blake3, 0⟩, .raw⟩

theorem clipped_intervals_exact : readChunkIntervals sampleLayout sampleChunk = .ok [(0, 6)] ∧
      ∀ byte, Readable sampleLayout sampleChunk byte ↔ byte < 6 := by
  have hrd : readChunkIntervals sampleLayout sampleChunk = .ok [(0, 6)] := by decide
  refine ⟨hrd, fun byte => ?_⟩
  rw [← ((read_intervals_exact (by decide)).1 _ hrd).2.2.1 byte]
  simp

/-- An extent that is empty, and starts beyond the chunk, maps no byte and is refused. -/
theorem empty_extent_refused :
    (∃ error, readChunkIntervals ⟨"l", 0, [⟨0, 1, "c", 9⟩]⟩ sampleChunk = .error error) ∧
      ∀ byte, ¬Readable ⟨"l", 0, [⟨0, 1, "c", 9⟩]⟩ sampleChunk byte := by
  refine ⟨⟨_, rfl⟩, ?_⟩
  rintro byte ⟨position, hps, -⟩
  exact absurd hps (Nat.not_lt_zero _)

end AgentDx.Dfs
