import AgentDx.Dfs.Service
import AgentDx.Lib.Outcome

/-!
# Cloning a range of a file

A clone replaces one range of the base's extents by a range of the source's.  No
chunk is read: extents are cut at the ends of the ranges and shifted.  A layout
means a partial map from the bytes of the file to bytes of chunks, and the clone
is stated in terms of these maps.
-/

namespace AgentDx.Dfs

open Word Outcome List

structure CloneFileRange where
  sourceOffset : ℕ
  destinationOffset : ℕ
  length : ℕ

def invalidClone : Error := invalid "invalid COW clone range"

def pushSlice (out : List Extent) (extent : Extent) (start stop destination : ℕ) :
    Result (List Extent) :=
  if start < stop then do
    let chunkOffset ← okOr (checkedAdd extent.chunkOffset (start - extent.fileOffset)) invalidClone
    return out ++ [⟨destination, stop - start, extent.chunkId, chunkOffset⟩]
  else
    .ok out

/-- One round of the loop over the base: what the extent has before the
destination and behind it. -/
def keepBase (range : CloneFileRange) (destinationEnd : ℕ) (out : List Extent) (extent : Extent) :
    Result (List Extent) := do
  let stop ← okOr (checkedAdd extent.fileOffset extent.length) invalidClone
  let out ← (if extent.fileOffset < range.destinationOffset then
      pushSlice out extent extent.fileOffset (min stop range.destinationOffset) extent.fileOffset
    else .ok out)
  if destinationEnd < stop then
    let start := max extent.fileOffset destinationEnd
    pushSlice out extent start stop start
  else .ok out

/-- One round of the loop over the source. -/
def copySource (range : CloneFileRange) (sourceEnd : ℕ) (out : List Extent) (extent : Extent) :
    Result (List Extent) := do
  let start := max extent.fileOffset range.sourceOffset
  let stop ← okOr (checkedAdd extent.fileOffset extent.length) invalidClone
  if start < min stop sourceEnd then do
    let target ← okOr (checkedAdd range.destinationOffset (start - range.sourceOffset)) invalidClone
    pushSlice out extent start (min stop sourceEnd) target
  else .ok out

def cloneFileLayout (base source : LayoutRoot) (range : CloneFileRange) (id : LayoutRootId) :
    Result LayoutRoot := do
  let sourceEnd ← okOr (checkedAdd range.sourceOffset range.length) invalidClone
  let destinationEnd ← okOr (checkedAdd range.destinationOffset range.length) invalidClone
  ensure (decide (range.length ≠ 0 ∧ sourceEnd ≤ source.fileLength)) invalidClone
  let extents ← base.inlineExtents.foldlM (keepBase range destinationEnd) []
  let extents ← source.inlineExtents.foldlM (copySource range sourceEnd) extents
  return ⟨id, max base.fileLength destinationEnd,
    extents.insertionSort fun left right => left.fileOffset ≤ right.fileOffset⟩

/-! ## What a layout maps -/

namespace Extent

variable {extent piece : Extent} {lower upper target byte : ℕ} {value : ChunkId × ℕ}

def stop (extent : Extent) : ℕ := extent.fileOffset + extent.length

def Covers (extent : Extent) (byte : ℕ) : Prop := extent.fileOffset ≤ byte ∧ byte < extent.stop

instance (extent : Extent) (byte : ℕ) : Decidable (extent.Covers byte) :=
  inferInstanceAs (Decidable (_ ∧ _))

/-- The byte of a chunk that stands for a byte of the file. -/
def chunkByte (extent : Extent) (byte : ℕ) : ChunkId × ℕ :=
  (extent.chunkId, extent.chunkOffset + (byte - extent.fileOffset))

def Maps (extent : Extent) (byte : ℕ) (value : ChunkId × ℕ) : Prop :=
  extent.Covers byte ∧ extent.chunkByte byte = value

def Apart (left right : Extent) : Prop := ∀ byte, left.Covers byte → ¬right.Covers byte

instance : Std.Symm Apart := ⟨fun _ _ hapart byte hright hleft => hapart byte hleft hright⟩

/-- An offset in the file or in the chunk does not fit a word. -/
def Overflows (extent : Extent) : Prop :=
  size ≤ extent.stop ∨ size < extent.chunkOffset + extent.length

/-- The part of an extent from `start` to `stop`, moved to `destination`. -/
def slice (extent : Extent) (start stop destination : ℕ) : List Extent :=
  if start < stop then
    [⟨destination, stop - start, extent.chunkId, extent.chunkOffset + (start - extent.fileOffset)⟩]
  else []

/-- What an extent has in a window, moved with the window's lower end to `target`. -/
def window (extent : Extent) (lower upper target : ℕ) : List Extent :=
  extent.slice (max extent.fileOffset lower) (min extent.stop upper)
    (target + (max extent.fileOffset lower - lower))

lemma mem_window : piece ∈ extent.window lower upper target ↔
    max extent.fileOffset lower < min extent.stop upper ∧
      piece = ⟨target + (max extent.fileOffset lower - lower),
        min extent.stop upper - max extent.fileOffset lower, extent.chunkId,
        extent.chunkOffset + (max extent.fileOffset lower - extent.fileOffset)⟩ := by
  unfold window slice
  split <;> simp_all

lemma window_apart : (extent.window lower upper target).Pairwise Apart := by
  unfold window slice
  split <;> simp

lemma window_nonempty (hpiece : piece ∈ extent.window lower upper target) : 0 < piece.length := by
  obtain ⟨hlt, rfl⟩ := mem_window.mp hpiece
  exact Nat.sub_pos_of_lt hlt

/-- A window maps the bytes from `target` on as the extent maps those from `lower` on. -/
lemma maps_window : (∃ piece ∈ extent.window lower upper target, piece.Maps byte value) ↔
    target ≤ byte ∧ lower + (byte - target) < upper ∧
      extent.Maps (lower + (byte - target)) value := by
  constructor
  · rintro ⟨piece, hpc, ⟨hfr, hto⟩, hvl⟩
    obtain ⟨hlt, rfl⟩ := mem_window.mp hpc
    simp only [stop] at hfr hto hlt
    refine ⟨by omega, by omega, ⟨by omega, by simp only [stop]; omega⟩, ?_⟩
    rw [← hvl]
    exact Prod.ext rfl (by simp only [chunkByte]; omega)
  · rintro ⟨hfr, hto, ⟨ha, hb⟩, hvl⟩
    refine ⟨_, mem_window.mpr ⟨by omega, rfl⟩, ⟨by dsimp only; omega, ?_⟩, ?_⟩
    · simp only [stop] at hb ⊢
      omega
    · rw [← hvl]
      exact Prod.ext rfl (by simp only [chunkByte]; omega)

end Extent

open Extent

/-- The chunk byte that the first extent over a byte gives it; `none` in a hole. -/
def LayoutRoot.byteAt (layout : LayoutRoot) (byte : ℕ) : Option (ChunkId × ℕ) :=
  (layout.inlineExtents.find? fun extent => extent.Covers byte).map (·.chunkByte byte)

structure LayoutRoot.WellFormed (layout : LayoutRoot) : Prop where
  nonempty : ∀ extent ∈ layout.inlineExtents, 0 < extent.length
  ordered : layout.inlineExtents.Pairwise fun left right => left.stop ≤ right.fileOffset
  inside : ∀ extent ∈ layout.inlineExtents, extent.stop ≤ layout.fileLength

lemma LayoutRoot.WellFormed.apart (hlayout : LayoutRoot.WellFormed layout) :
    layout.inlineExtents.Pairwise Apart := by
  refine hlayout.ordered.imp fun hle byte hlf hr => ?_
  exact absurd (hlf.2.trans_le hle) (not_lt.mpr hr.1)

/-- Where no two extents overlap, the first extent over a byte is the only one. -/
lemma LayoutRoot.byteAt_eq_some {layout : LayoutRoot}
    (hapart : layout.inlineExtents.Pairwise Apart) :
    layout.byteAt byte = some value ↔ ∃ extent ∈ layout.inlineExtents, extent.Maps byte value := by
  rw [byteAt, Option.map_eq_some_iff]
  constructor
  · rintro ⟨extent, hfn, hvl⟩
    exact ⟨extent, mem_of_find?_eq_some hfn, by simpa using find?_some hfn, hvl⟩
  · rintro ⟨extent, hm, hcv, hvl⟩
    have hsm : (layout.inlineExtents.find? fun extent => extent.Covers byte).isSome :=
      find?_isSome.mpr ⟨extent, hm, decide_eq_true hcv⟩
    obtain ⟨found, hfn⟩ := Option.isSome_iff_exists.mp hsm
    have heq : found = extent := by
      by_contra hne
      refine hapart.forall (mem_of_find?_eq_some hfn) hm hne byte ?_ hcv
      simpa using find?_some hfn
    exact ⟨found, hfn, heq ▸ hvl⟩

/-! ## The pieces of a clone -/

namespace CloneFileRange

variable (range : CloneFileRange) {base source : LayoutRoot} {extent piece : Extent}
  {byte : ℕ} {value : ChunkId × ℕ}

def sourceEnd : ℕ := range.sourceOffset + range.length

def destinationEnd : ℕ := range.destinationOffset + range.length

def Inside (byte : ℕ) : Prop := range.destinationOffset ≤ byte ∧ byte < range.destinationEnd

instance : Decidable (range.Inside byte) := inferInstanceAs (Decidable (_ ∧ _))

/-- The source byte that a byte of the destination is a copy of. -/
def origin (byte : ℕ) : ℕ := range.sourceOffset + (byte - range.destinationOffset)

def kept (extent : Extent) : List Extent :=
  extent.window 0 range.destinationOffset 0 ++
    extent.window range.destinationEnd extent.stop range.destinationEnd

def copied (extent : Extent) : List Extent :=
  extent.window range.sourceOffset range.sourceEnd range.destinationOffset

def pieces (base source : LayoutRoot) : List Extent :=
  base.inlineExtents.flatMap range.kept ++ source.inlineExtents.flatMap range.copied

/-- An offset of the clone does not fit a word. -/
def Overflows (base source : LayoutRoot) : Prop :=
  size ≤ range.sourceEnd ∨ size ≤ range.destinationEnd ∨
    ∃ extent ∈ base.inlineExtents ++ source.inlineExtents, extent.Overflows

variable {range}

lemma maps_kept : (∃ piece ∈ range.kept extent, piece.Maps byte value) ↔
    ¬range.Inside byte ∧ extent.Maps byte value := by
  have hbh : range.destinationEnd ≤ byte →
      range.destinationEnd + (byte - range.destinationEnd) = byte := Nat.add_sub_cancel'
  simp only [kept, mem_append, or_and_right, exists_or, maps_window, Nat.zero_le, true_and,
    Nat.sub_zero, Nat.zero_add, Inside, not_and_or, not_le, not_lt]
  refine or_congr_right (and_congr_right fun hle => ?_)
  rw [hbh hle]
  exact and_iff_right_of_imp fun hmp => hmp.1.2

lemma maps_copied : (∃ piece ∈ range.copied extent, piece.Maps byte value) ↔
    range.Inside byte ∧ extent.Maps (range.origin byte) value := by
  rw [copied, maps_window, ← and_assoc]
  refine and_congr_left fun _ => ?_
  simp only [Inside, sourceEnd, destinationEnd]
  omega

lemma maps_pieces : (∃ piece ∈ range.pieces base source, piece.Maps byte value) ↔
    if range.Inside byte then ∃ extent ∈ source.inlineExtents, extent.Maps (range.origin byte) value
    else ∃ extent ∈ base.inlineExtents, extent.Maps byte value := by
  have h : ∀ (layout : LayoutRoot) (cut : Extent → List Extent),
      (∃ piece ∈ layout.inlineExtents.flatMap cut, piece.Maps byte value) ↔
        ∃ extent ∈ layout.inlineExtents, ∃ piece ∈ cut extent, piece.Maps byte value := by
    intro layout cut
    simp only [mem_flatMap]
    grind
  simp only [pieces, mem_append, or_and_right, exists_or, h, maps_kept, maps_copied]
  split <;> simp_all

lemma covers_kept (hpiece : piece ∈ range.kept extent) (hspan : piece.Covers byte) :
    ¬range.Inside byte ∧ extent.Covers byte :=
  (maps_kept.mp ⟨piece, hpiece, hspan, rfl⟩).imp_right And.left

lemma covers_copied (hpiece : piece ∈ range.copied extent) (hspan : piece.Covers byte) :
    range.Inside byte ∧ extent.Covers (range.origin byte) :=
  (maps_copied.mp ⟨piece, hpiece, hspan, rfl⟩).imp_right And.left

lemma kept_apart : (range.kept extent).Pairwise Apart := by
  refine pairwise_append.mpr ⟨window_apart, window_apart, ?_⟩
  intro left hlf right hr byte hcv ho
  have hb := (maps_window.mp ⟨left, hlf, hcv, rfl⟩).2.1
  have hbh := (maps_window.mp ⟨right, hr, ho, rfl⟩).1
  unfold destinationEnd at hbh
  omega

lemma pieces_apart (hbase : base.WellFormed) (hfrom : source.WellFormed) :
    (range.pieces base source).Pairwise Apart := by
  refine pairwise_append.mpr ⟨?_, ?_, ?_⟩
  · refine pairwise_flatMap.mpr ⟨fun _ _ => kept_apart, hbase.apart.imp ?_⟩
    intro _ _ hap left hlf right hr byte hcv ho
    exact hap byte (covers_kept hlf hcv).2 (covers_kept hr ho).2
  · refine pairwise_flatMap.mpr ⟨fun _ _ => window_apart, hfrom.apart.imp ?_⟩
    intro _ _ hap left hlf right hr byte hcv ho
    exact hap _ (covers_copied hlf hcv).2 (covers_copied hr ho).2
  · intro left hlf right hr byte hcv ho
    obtain ⟨_, -, hlf⟩ := mem_flatMap.mp hlf
    obtain ⟨_, -, hr⟩ := mem_flatMap.mp hr
    exact (covers_kept hlf hcv).1 (covers_copied hr ho).1

lemma pieces_nonempty (hpiece : piece ∈ range.pieces base source) : 0 < piece.length := by
  rcases mem_append.mp hpiece with hkp | hcp
  · obtain ⟨_, -, hm⟩ := mem_flatMap.mp hkp
    exact (mem_append.mp hm).elim window_nonempty window_nonempty
  · obtain ⟨_, -, hm⟩ := mem_flatMap.mp hcp
    exact window_nonempty hm

lemma pieces_inside (hbase : base.WellFormed) (hpiece : piece ∈ range.pieces base source) :
    piece.stop ≤ max base.fileLength range.destinationEnd := by
  have hln := pieces_nonempty hpiece
  have hls : piece.Covers (piece.stop - 1) := by
    simp only [Covers, stop]
    omega
  have hmp := maps_pieces.mp ⟨piece, hpiece, hls, rfl⟩
  split at hmp
  next hin =>
    exact le_max_of_le_right (Nat.le_of_pred_lt hin.2)
  next =>
    obtain ⟨extent, hex, hcv, -⟩ := hmp
    exact le_max_of_le_left ((Nat.le_of_pred_lt hcv.2).trans (hbase.inside extent hex))

end CloneFileRange

/-! ## The clone -/

variable {extent : Extent} {out : List Extent} {start stop : ℕ} {range : CloneFileRange}

lemma ends_checkedAdd {left right} {Bad : Prop} (hbad : size ≤ left + right → Bad) :
    Ends (okOr (checkedAdd left right) invalidClone)
      (fun sum => left + right < size ∧ sum = left + right) Bad := by
  unfold checkedAdd
  split
  next hlt => exact ⟨hlt, rfl⟩
  next hge => exact hbad (not_lt.mp hge)

lemma ends_pushSlice (hstart : extent.fileOffset ≤ start)
    (hstop : stop ≤ extent.stop) : Ends (pushSlice out extent start stop destination)
      (· = out ++ extent.slice start stop destination) extent.Overflows := by
  unfold pushSlice slice
  split
  next hlt =>
    refine (ends_checkedAdd fun hsz => ?_).bind fun offset hof => ?_
    · unfold Extent.stop at hstop
      exact .inr (by omega)
    · rw [hof.2]
      rfl
  next => exact (append_nil out).symm

lemma ends_guarded {guard : Prop} [Decidable guard] (hguard : start < stop → guard)
    (hslice : guard → Ends sliced (· = out ++ extent.slice start stop destination)
      extent.Overflows) :
    Ends (if guard then sliced else .ok out) (· = out ++ extent.slice start stop destination)
      extent.Overflows := by
  split
  next hhd => exact hslice hhd
  next hfa =>
    have hem := mt hguard hfa
    simp only [Ends, slice, if_neg hem, append_nil]

lemma ends_keepBase :
    Ends (keepBase range range.destinationEnd out extent) (· = out ++ range.kept extent)
      extent.Overflows := by
  unfold keepBase
  refine (ends_checkedAdd .inl).bind fun stop hst => ?_
  obtain rfl : stop = extent.stop := hst.2
  have hkp : range.kept extent = extent.slice extent.fileOffset
      (min extent.stop range.destinationOffset) extent.fileOffset ++
      extent.slice (max extent.fileOffset range.destinationEnd) extent.stop
        (max extent.fileOffset range.destinationEnd) := by
    simp [CloneFileRange.kept, window]
  rw [hkp, ← append_assoc]
  refine (ends_guarded (by omega) fun _ => ends_pushSlice le_rfl (min_le_left _ _)).bind ?_
  rintro _ rfl
  exact ends_guarded (by omega) fun _ => ends_pushSlice (le_max_left _ _) le_rfl

lemma ends_copySource (hdestination : range.destinationEnd < size) :
    Ends (copySource range range.sourceEnd out extent) (· = out ++ range.copied extent)
      extent.Overflows := by
  unfold copySource
  refine (ends_checkedAdd .inl).bind fun stop hst => ?_
  obtain rfl : stop = extent.stop := hst.2
  refine ends_guarded id fun hlt => ?_
  refine (ends_checkedAdd fun hsz => ?_).bind fun target htg => ?_
  · unfold CloneFileRange.sourceEnd at hlt
    unfold CloneFileRange.destinationEnd at hdestination
    omega
  · rw [htg.2]
    exact ends_pushSlice (le_max_left _ _) (min_le_left _ _)

lemma ends_cloneFileLayout (base source range id) : Ends (cloneFileLayout base source range id)
      (· = ⟨id, max base.fileLength range.destinationEnd, (range.pieces base source).insertionSort
        fun left right => left.fileOffset ≤ right.fileOffset⟩)
      (range.length = 0 ∨ range.Overflows base source ∨ source.fileLength < range.sourceEnd) := by
  unfold cloneFileLayout
  refine (ends_checkedAdd fun h => .inr (.inl (.inl h))).bind fun sourceEnd hsr => ?_
  obtain rfl : sourceEnd = range.sourceEnd := hsr.2
  refine (ends_checkedAdd fun h => .inr (.inl (.inr (.inl h)))).bind fun stop hst => ?_
  obtain rfl : stop = range.destinationEnd := hst.2
  have hov : ∀ {extent}, extent ∈ base.inlineExtents ++ source.inlineExtents →
      extent.Overflows → range.Overflows base source :=
    fun hm hex => .inr (.inr ⟨_, hm, hex⟩)
  have hgu : Ends (ensure (decide (range.length ≠ 0 ∧ range.sourceEnd ≤ source.fileLength))
      invalidClone) (fun _ => True) (range.length = 0 ∨ range.Overflows base source ∨
        source.fileLength < range.sourceEnd) := by
    unfold ensure
    split
    next => trivial
    next hfa =>
      simp only [ne_eq, decide_eq_true_eq, not_and, not_le] at hfa
      exact (em (range.length = 0)).imp_right fun hln => .inr (hfa hln)
  have hkp : Ends (base.inlineExtents.foldlM (keepBase range range.destinationEnd) [])
      (· = base.inlineExtents.flatMap range.kept) (range.Overflows base source) :=
    Ends.collect fun _ _ hm => ends_keepBase.imp (hov (mem_append_left _ hm))
  have hcp : ∀ out, Ends (source.inlineExtents.foldlM (copySource range range.sourceEnd) out)
      (· = out ++ source.inlineExtents.flatMap range.copied) (range.Overflows base source) :=
    fun _ => Ends.collect fun _ _ hm =>
      (ends_copySource hst.1).imp (hov (mem_append_right _ hm))
  refine hgu.bind fun _ _ => Ends.imp ?_ fun h => .inr (.inl h)
  refine hkp.bind fun kept hkp => (hcp kept).bind fun extents hee => ?_
  rw [hee, hkp]
  rfl

/-- A clone maps the destination as the source maps its range, holes included,
and every other byte as the base does, in a layout that is well formed again; it
fails only for an empty range, an overflow or a range beyond the source. -/
theorem clone_remaps_bytes {base source : LayoutRoot} (hbase : base.WellFormed)
    (hfrom : source.WellFormed) (range : CloneFileRange) (id : LayoutRootId) :
    (∀ clone, cloneFileLayout base source range id = .ok clone →
      (∀ byte, clone.byteAt byte = if range.Inside byte then source.byteAt (range.origin byte)
        else base.byteAt byte) ∧
      clone.fileLength = max base.fileLength range.destinationEnd ∧ clone.WellFormed) ∧
    ∀ error, cloneFileLayout base source range id = .error error →
      range.length = 0 ∨ range.Overflows base source ∨ source.fileLength < range.sourceEnd := by
  have hends := ends_cloneFileLayout base source range id
  refine ⟨fun clone hclone => ?_, fun error herror => by rwa [herror] at hends⟩
  rw [hclone] at hends
  subst hends
  have hperm := perm_insertionSort
    (fun left right : Extent => left.fileOffset ≤ right.fileOffset) (range.pieces base source)
  have hapart := (hperm.pairwise_iff (Std.Symm.symm _ _)).mpr (range.pieces_apart hbase hfrom)
  have hnonempty := fun extent hextent =>
    CloneFileRange.pieces_nonempty ((hperm.mem_iff (a := extent)).mp hextent)
  refine ⟨fun byte => Option.ext fun value => ?_, rfl, ?_⟩
  · rw [LayoutRoot.byteAt_eq_some hapart]
    simp only [hperm.mem_iff]
    rw [CloneFileRange.maps_pieces]
    split
    next => exact (LayoutRoot.byteAt_eq_some hfrom.apart).symm
    next => exact (LayoutRoot.byteAt_eq_some hbase.apart).symm
  · refine ⟨hnonempty, ?_, fun extent hextent =>
      CloneFileRange.pieces_inside hbase (hperm.mem_iff.mp hextent)⟩
    have hsort := pairwise_insertionSort
      (fun left right : Extent => left.fileOffset ≤ right.fileOffset) (range.pieces base source)
    refine (hsort.and hapart).imp_of_mem fun {left right} _ hright hpair => ?_
    -- Otherwise both extents cover the first byte of the right one.
    by_contra hoverlap
    exact hpair.2 right.fileOffset ⟨hpair.1, not_le.mp hoverlap⟩
      ⟨le_rfl, Nat.lt_add_of_pos_right (hnonempty right hright)⟩

def oldLayout : LayoutRoot := ⟨"old", 20, [⟨0, 20, "old", 0⟩]⟩

lemma oldLayout_wellFormed : oldLayout.WellFormed :=
  ⟨by simp [oldLayout], by simp [oldLayout], by simp [oldLayout, stop]⟩

theorem clone_cuts_old_layout :
    ∃ clone, cloneFileLayout oldLayout oldLayout ⟨2, 10, 4⟩ "clone" = .ok clone ∧
      clone.byteAt 9 = some ("old", 9) ∧ clone.byteAt 10 = some ("old", 2) ∧ clone.WellFormed := by
  have hclone := (clone_remaps_bytes oldLayout_wellFormed oldLayout_wellFormed
    ⟨2, 10, 4⟩ "clone").1 _ rfl
  exact ⟨_, rfl, (hclone.1 9).trans rfl, (hclone.1 10).trans rfl, hclone.2.2⟩

/-- An empty range is refused, although no offset overflows and the range lies
within the source. -/
theorem empty_clone_refused : oldLayout.WellFormed ∧
    cloneFileLayout oldLayout oldLayout ⟨0, 0, 0⟩ "clone" = .error invalidClone ∧
      ¬(CloneFileRange.Overflows ⟨0, 0, 0⟩ oldLayout oldLayout ∨
        oldLayout.fileLength < CloneFileRange.sourceEnd ⟨0, 0, 0⟩) := by
  refine ⟨oldLayout_wellFormed, rfl, ?_⟩
  simp [CloneFileRange.Overflows, CloneFileRange.sourceEnd, CloneFileRange.destinationEnd, size,
    oldLayout, Extent.Overflows, stop]

end AgentDx.Dfs
