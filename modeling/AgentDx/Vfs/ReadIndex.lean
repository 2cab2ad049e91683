import AgentDx.Dfs.Clone
import AgentDx.Lib.Cut
import AgentDx.Vfs.OwnerFiles

/-!
# Reading a layout through its index

The extents of a layout may be unsorted and may overlap.  The index orders them
by their start and keeps, at every place, the largest end so far; a read cuts the
order twice and looks only at what lies between.  It finds what checking every
extent in turn would find, in the order of the layout.
-/

namespace AgentDx.Vfs

open Word Cut List
open Dfs hiding invalid

structure ChunkReadOp where
  chunkId : ChunkId
  chunkOffset : ℕ
  length : ℕ
  outputOffset : ℕ
  deriving DecidableEq

structure IndexedExtent where
  original : ℕ
  maxEnd : ℕ

structure LayoutReadIndex where
  entries : List IndexedExtent
  serializationOrdered : Bool

variable (layout : LayoutRoot) (offset length : ℕ)

/-- The extent at a place of the layout; places come from its enumeration. -/
def extentAt (original : ℕ) : Extent := layout.inlineExtents.getD original ⟨0, 0, "", 0⟩

def extentReadOp (extent : Extent) (stop : ℕ) : Result (Option ChunkReadOp) := do
  let extentEnd ← okOr (checkedAdd extent.fileOffset extent.length)
    (invalid "extent range overflow")
  let start := max offset extent.fileOffset
  let stop := min stop extentEnd
  if stop ≤ start then
    return none
  else
    let chunkOffset ← okOr (checkedAdd extent.chunkOffset (start - extent.fileOffset))
      (invalid "chunk read offset overflow")
    return some ⟨extent.chunkId, chunkOffset, stop - start, start - offset⟩

/-- Replaces every end by the largest one up to it. -/
def runningMax : ℕ → List IndexedExtent → List IndexedExtent
  | _, [] => []
  | high, entry :: rest =>
    { entry with maxEnd := max high entry.maxEnd } :: runningMax (max high entry.maxEnd) rest

def LayoutReadIndex.new : Result LayoutReadIndex := do
  let entries ← layout.inlineExtents.zipIdx.mapM fun (extent, original) => do
    let maxEnd ← okOr (checkedAdd extent.fileOffset extent.length) (invalid "extent range overflow")
    return IndexedExtent.mk original maxEnd
  let key := fun entry : IndexedExtent =>
    toLex ((extentAt layout entry.original).fileOffset, entry.original)
  let entries := runningMax 0 (entries.insertionSort fun left right => key left ≤ key right)
  return ⟨entries, decide ((entries.map IndexedExtent.original).IsChain (· < ·))⟩

def LayoutReadIndex.ops (index : LayoutReadIndex) : Result (List ChunkReadOp) := do
  let stop ← okOr (checkedAdd offset length) (invalid "read range overflow")
  let first := bisect IndexedExtent.maxEnd index.entries offset 0 index.entries.length
  let last := bisect (fun entry => (extentAt layout entry.original).fileOffset + 1) index.entries
    stop 0 index.entries.length
  if last ≤ first then
    return []
  else
    let candidates := ((index.entries.take last).drop first).map IndexedExtent.original
    let candidates := if index.serializationOrdered then candidates
      else candidates.insertionSort (· ≤ ·)
    let ops ← candidates.mapM fun original => extentReadOp offset (extentAt layout original) stop
    return ops.reduceOption

/-! ## What the index knows -/

variable {layout offset length}

/-- What holds of an index of a layout. -/
structure Indexed (layout : LayoutRoot) (index : LayoutReadIndex) : Prop where
  places : (index.entries.map IndexedExtent.original).Perm (.range layout.inlineExtents.length)
  ends : ∀ entry ∈ index.entries, (extentAt layout entry.original).stop ≤ entry.maxEnd
  rising : index.entries.Pairwise (·.maxEnd ≤ ·.maxEnd)
  starts : index.entries.Pairwise fun left right =>
    (extentAt layout left.original).fileOffset + 1 ≤ (extentAt layout right.original).fileOffset + 1
  ordered : index.serializationOrdered = true →
    (index.entries.map IndexedExtent.original).Pairwise (· ≤ ·)

lemma runningMax_original (high : ℕ) (entries) :
    (runningMax high entries).map IndexedExtent.original = entries.map IndexedExtent.original := by
  induction entries generalizing high with
  | nil => rfl
  | cons entry rest ih => exact congrArg (entry.original :: ·) (ih _)

lemma runningMax_rising (high : ℕ) (entries) :
    (∀ entry ∈ runningMax high entries, high ≤ entry.maxEnd) ∧
      (runningMax high entries).Pairwise (·.maxEnd ≤ ·.maxEnd) := by
  induction entries generalizing high with
  | nil => simp [runningMax]
  | cons entry rest ih =>
    obtain ⟨hhg, hrs⟩ := ih (max high entry.maxEnd)
    refine ⟨?_, pairwise_cons.mpr ⟨hhg, hrs⟩⟩
    rintro other (_ | ⟨_, ho⟩)
    · exact le_max_left _ _
    · exact (le_max_left _ _).trans (hhg other ho)

lemma runningMax_ends (hmem : entry ∈ runningMax high entries) :
    ∃ own ∈ entries, own.original = entry.original ∧ own.maxEnd ≤ entry.maxEnd := by
  induction entries generalizing high with
  | nil => cases hmem
  | cons head rest ih =>
    rcases mem_cons.mp hmem with rfl | hr
    · exact ⟨head, mem_cons_self, rfl, le_max_right _ _⟩
    · obtain ⟨own, how, heq⟩ := ih hr
      exact ⟨own, mem_cons_of_mem _ how, heq⟩

lemma mapM_ok {E A B : Type} {items : List A} {f : A → Except E B} {g : A → B}
    (hitems : ∀ item ∈ items, f item = .ok (g item)) : items.mapM f = .ok (items.map g) := by
  induction items with
  | nil => rfl
  | cons item rest ih =>
    rw [mapM_cons, hitems item mem_cons_self, ih fun other h => hitems other (mem_cons_of_mem _ h)]
    rfl

lemma new_indexed (hfits : ∀ extent ∈ layout.inlineExtents, ¬extent.Overflows) :
    ∃ index, LayoutReadIndex.new layout = .ok index ∧ Indexed layout index := by
  have hen : layout.inlineExtents.zipIdx.mapM (fun (extent, original) => do
      let maxEnd ← okOr (checkedAdd extent.fileOffset extent.length)
        (invalid "extent range overflow")
      return IndexedExtent.mk original maxEnd) =
      .ok (layout.inlineExtents.zipIdx.map fun pair => ⟨pair.2, pair.1.stop⟩) := by
    refine mapM_ok fun ⟨extent, original⟩ hpr => ?_
    have hsp := not_le.mp (not_or.mp (hfits extent (fst_mem_of_mem_zipIdx hpr))).1
    have had : checkedAdd extent.fileOffset extent.length = some extent.stop :=
      checkedAdd_eq_some.mpr ⟨hsp, rfl⟩
    simp only [had]
    rfl
  let key := fun entry : IndexedExtent =>
    toLex ((extentAt layout entry.original).fileOffset, entry.original)
  let sorted := (layout.inlineExtents.zipIdx.map fun pair =>
    IndexedExtent.mk pair.2 pair.1.stop).insertionSort fun left right => key left ≤ key right
  have hpe : sorted.Perm _ := perm_insertionSort _ _
  refine ⟨⟨runningMax 0 sorted, _⟩, by rw [LayoutReadIndex.new, hen]; rfl, ?_, ?_, ?_, ?_, ?_⟩
  · rw [runningMax_original]
    refine (hpe.map _).trans (.of_eq ?_)
    rw [map_map, range_eq_range']
    exact zipIdx_map_snd 0 _
  · intro entry he
    obtain ⟨own, how, heq, hle⟩ := runningMax_ends he
    obtain ⟨⟨extent, original⟩, hpr, rfl⟩ := mem_map.mp (hpe.mem_iff.mp how)
    have hex : extentAt layout original = extent := by
      rw [extentAt, getD_eq_getElem?_getD, mem_zipIdx_iff_getElem?.mp hpr]
      rfl
    rw [← heq, hex]
    exact hle
  · exact (runningMax_rising 0 sorted).2
  · have hsr : sorted.Pairwise fun left right => key left ≤ key right := pairwise_insertionSort _ _
    have hst : (sorted.map IndexedExtent.original).Pairwise fun left right =>
        (extentAt layout left).fileOffset + 1 ≤ (extentAt layout right).fileOffset + 1 := by
      refine pairwise_map.mpr (hsr.imp fun hle => Nat.succ_le_succ ?_)
      exact (Prod.Lex.le_iff'.mp hle).1
    rw [← runningMax_original 0, pairwise_map] at hst
    exact hst
  · intro hor
    exact (isChain_iff_pairwise.mp (of_decide_eq_true hor)).imp le_of_lt

/-! ## Reads -/

/-- The part of an extent that a read covers. -/
def intersection (offset stop : ℕ) (extent : Extent) : Option ChunkReadOp :=
  let start := max offset extent.fileOffset
  if start < min stop extent.stop then
    some ⟨extent.chunkId, extent.chunkOffset + (start - extent.fileOffset),
      min stop extent.stop - start, start - offset⟩
  else none

lemma extentReadOp_eq (hfits : ¬extent.Overflows) (offset stop) :
    extentReadOp offset extent stop = .ok (intersection offset stop extent) := by
  obtain ⟨hst, hch⟩ := not_or.mp hfits
  have had : checkedAdd extent.fileOffset extent.length = some extent.stop :=
    checkedAdd_eq_some.mpr ⟨not_le.mp hst, rfl⟩
  unfold extentReadOp intersection
  rw [had]
  rcases Nat.lt_or_ge (max offset extent.fileOffset) (min stop extent.stop) with hlt | hge
  · have hof : checkedAdd extent.chunkOffset (max offset extent.fileOffset - extent.fileOffset) =
        some (extent.chunkOffset + (max offset extent.fileOffset - extent.fileOffset)) := by
      refine checkedAdd_eq_some.mpr ⟨?_, rfl⟩
      simp only [Extent.stop] at hlt
      omega
    simp only [okOr, bind, Except.bind, if_neg (not_le.mpr hlt), if_pos hlt, hof]
    rfl
  · simp only [okOr, bind, Except.bind, if_pos hge, if_neg (not_lt.mpr hge)]
    rfl

lemma Indexed.outside (hidx : Indexed layout index)
    (hone : Cuts IndexedExtent.maxEnd offset first index.entries)
    (hlast : Cuts (fun entry => (extentAt layout entry.original).fileOffset + 1) stop last
      index.entries) (hplace : original < layout.inlineExtents.length)
    (hout : original ∉ ((index.entries.take last).drop first).map IndexedExtent.original) :
    intersection offset stop (extentAt layout original) = none := by
  obtain ⟨entry, he, rfl⟩ := mem_map.mp (hidx.places.mem_iff.mpr (mem_range.mpr hplace))
  have hem : min stop (extentAt layout entry.original).stop ≤
      max offset (extentAt layout entry.original).fileOffset := by
    rw [← take_append_drop last index.entries, mem_append] at he
    rcases he with hb | hbh
    · rw [← take_append_drop first (index.entries.take last), mem_append] at hb
      have htk := hb.resolve_right fun hm => hout (mem_map_of_mem hm)
      rw [take_take] at htk
      have he := mem_of_mem_take htk
      have hen := hone.below entry (take_subset_take_left _ (min_le_left _ _) htk)
      exact (min_le_right _ _).trans (((hidx.ends entry he).trans hen).trans (le_max_left _ _))
    · have hin := hlast.above entry hbh
      omega
  exact if_neg (not_lt.mpr hem)

lemma inlineExtents_eq (layout : LayoutRoot) :
    layout.inlineExtents = (List.range layout.inlineExtents.length).map (extentAt layout) := by
  refine ext_getElem (by simp) fun place h _ => ?_
  simp [extentAt, h]

lemma Indexed.reads (hidx : Indexed layout index)
    (hfits : ∀ extent ∈ layout.inlineExtents, ¬extent.Overflows) (hsum : offset + length < size) :
    index.ops layout offset length =
      .ok (layout.inlineExtents.filterMap (intersection offset (offset + length))) := by
  have had : checkedAdd offset length = some (offset + length) := checkedAdd_eq_some.mpr ⟨hsum, rfl⟩
  set stop := offset + length
  set first := bisect IndexedExtent.maxEnd index.entries offset 0 index.entries.length
  set last := bisect (fun entry => (extentAt layout entry.original).fileOffset + 1) index.entries
    stop 0 index.entries.length
  set candidates := ((index.entries.take last).drop first).map IndexedExtent.original
  have hfs : Cuts IndexedExtent.maxEnd offset first index.entries :=
    bisect_cuts hidx.rising (Nat.zero_le _) le_rfl (by simp) (by simp)
  have hls : Cuts _ stop last index.entries :=
    bisect_cuts hidx.starts (Nat.zero_le _) le_rfl (by simp) (by simp)
  have hsb : candidates.Sublist (index.entries.map IndexedExtent.original) :=
    ((drop_sublist _ _).trans (take_sublist _ _)).map _
  have hrg : ∀ original ∈ candidates, original < layout.inlineExtents.length :=
    fun original hm => mem_range.mp (hidx.places.mem_iff.mp (hsb.subset hm))
  -- Either way the candidates are looked at in the order of the layout.
  have hsr : (if index.serializationOrdered then candidates
      else candidates.insertionSort (· ≤ ·)) =
        (List.range layout.inlineExtents.length).filter (· ∈ candidates) := by
    have hnd : candidates.Nodup := hsb.nodup (hidx.places.nodup_iff.mpr nodup_range)
    have hpr : candidates.Perm
        ((List.range layout.inlineExtents.length).filter (· ∈ candidates)) := by
      refine (perm_ext_iff_of_nodup hnd (nodup_range.filter _)).mpr fun original => ?_
      simpa using hrg original
    have hfl : ((List.range layout.inlineExtents.length).filter (· ∈ candidates)).Pairwise
        (· ≤ ·) := pairwise_le_range.filter _
    split
    next hor =>
      exact hpr.eq_of_pairwise' ((hidx.ordered hor).sublist hsb) hfl
    next =>
      exact ((perm_insertionSort _ _).trans hpr).eq_of_pairwise' (pairwise_insertionSort _ _) hfl
  have hops : ((List.range layout.inlineExtents.length).filter (· ∈ candidates)).filterMap
      (intersection offset stop ∘ extentAt layout) =
        layout.inlineExtents.filterMap (intersection offset stop) := by
    conv_rhs => rw [inlineExtents_eq layout, filterMap_map]
    rw [filterMap_filter]
    refine filterMap_congr fun original hm => ?_
    split
    next => rfl
    next hot =>
      exact (hidx.outside hfs hls (mem_range.mp hm) fun hin => hot (decide_eq_true hin)).symm
  unfold LayoutReadIndex.ops
  rw [had, ← hops]
  change (if last ≤ first then Except.ok [] else _) = _
  split
  next hnn =>
    have hem : candidates = [] := by
      rw [map_eq_nil_iff, drop_eq_nil_iff]
      exact (length_take_le _ _).trans hnn
    simp [hem]
  next =>
    change ((if index.serializationOrdered then candidates
      else candidates.insertionSort (· ≤ ·)).mapM _ >>= _) = _
    rw [hsr, mapM_ok fun original hm => extentReadOp_eq (hfits _ ?_) offset stop]
    · exact congrArg Except.ok (filterMap_map ..)
    · rw [inlineExtents_eq layout]
      exact mem_map_of_mem (mem_of_mem_filter hm)

/-- A read through the index returns the non-empty intersections of its range
with the extents, in the order of the layout, unless the range itself overflows. -/
theorem indexed_reads_match_scan (hfits : ∀ extent ∈ layout.inlineExtents, ¬extent.Overflows) :
    ∃ index, LayoutReadIndex.new layout = .ok index ∧ ∀ offset length,
      index.ops layout offset length = if offset + length < size then
          .ok (layout.inlineExtents.filterMap (intersection offset (offset + length)))
        else .error (invalid "read range overflow") := by
  obtain ⟨index, hnew, hindexed⟩ := new_indexed hfits
  refine ⟨index, hnew, fun offset length => ?_⟩
  split
  next hsum => exact hindexed.reads hfits hsum
  next hsum => simp [LayoutReadIndex.ops, checkedAdd, hsum, okOr, bind, Except.bind]

theorem overlapping_layout_read : ∃ index,
    LayoutReadIndex.new ⟨"layout", 8, [⟨4, 4, "b", 0⟩, ⟨0, 6, "a", 0⟩]⟩ = .ok index ∧
      index.ops ⟨"layout", 8, [⟨4, 4, "b", 0⟩, ⟨0, 6, "a", 0⟩]⟩ 3 4 =
        .ok [⟨"b", 0, 3, 1⟩, ⟨"a", 3, 3, 0⟩] := by
  obtain ⟨index, hnew, hops⟩ := @indexed_reads_match_scan
    ⟨"layout", 8, [⟨4, 4, "b", 0⟩, ⟨0, 6, "a", 0⟩]⟩ (by simp [Extent.Overflows, Extent.stop, size])
  exact ⟨index, hnew, (hops 3 4).trans rfl⟩

/-- A read that ends past the largest offset is refused, although an extent lies in
its range. -/
theorem read_past_last_byte_refused : ¬Extent.Overflows ⟨size - 2, 1, "a", 0⟩ ∧
      (∀ index, LayoutReadIndex.ops ⟨"layout", size - 1, [⟨size - 2, 1, "a", 0⟩]⟩ (size - 2) 2
        index = .error (invalid "read range overflow")) ∧
      intersection (size - 2) size ⟨size - 2, 1, "a", 0⟩ = some ⟨"a", 0, 1, 0⟩ :=
  ⟨by simp [Extent.Overflows, Extent.stop, size], fun _ => rfl, rfl⟩

end AgentDx.Vfs
