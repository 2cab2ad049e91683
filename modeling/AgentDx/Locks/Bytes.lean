import AgentDx.Locks.Table

/-!
# What the locks of a table cover

A list of locks is read as a map from kind, owner and byte to the type of the
lock held there.  Applying a request trims the owner's segments, adds one and
merges what meets.  The lemmas here say what each of these does to the map, and
that the segments stay canonical: valid, of one type per byte, and never two
that could be one.
-/

namespace AgentDx.Locks

open List hiding next
open Std Segments

/-! ## Ranges -/

variable {range : FileLockRange}

lemma isValid_iff : isValid range = true ↔ range.Valid := by
  simp [isValid, Segment.Valid]

lemma overlaps_iff : overlaps range other = true ↔ Segment.Overlaps range other := by
  simp [overlaps, Segment.Overlaps]

lemma Offset.checkedNext_eq_some {offset : Offset} {next} :
    offset.checkedNext = some next ↔ offset ⋖ next := by
  rw [Fin.covBy_iff, Nat.covBy_iff_add_one_eq]
  unfold checkedNext
  split
  · simp [Fin.ext_iff]
  · have hlt := next.isLt
    simp only [reduceCtorEq, false_iff]
    omega

lemma touchesOrOverlaps_iff {other} :
    touchesOrOverlaps range other = true ↔ Segment.Near range other := by
  simp only [touchesOrOverlaps, Bool.or_eq_true, overlaps_iff, beq_iff_eq,
    Offset.checkedNext_eq_some, or_assoc]
  rfl

lemma Offset.saturatingNext_eq (offset : Offset) : offset.saturatingNext = Order.succ offset := by
  unfold saturatingNext
  split
  next hnx =>
    symm
    apply Order.succ_eq_of_covBy
    rw [← Offset.checkedNext_eq_some]
    simp [checkedNext, hnx]
  next hls =>
    symm
    rw [Order.succ_eq_iff_isMax]
    intro other _
    rw [Fin.le_def]
    have hlt := other.isLt
    omega

lemma Offset.saturatingPrevious_eq (offset : Offset) :
    offset.saturatingPrevious = Order.pred offset := by
  by_cases hzr : offset.val = 0
  · have hmn : IsMin offset := by
      intro other _
      rw [Fin.le_def]
      omega
    rw [Order.pred_eq_iff_isMin.mpr hmn]
    apply Fin.ext
    simp [saturatingPrevious, hzr]
  · symm
    apply Order.pred_eq_of_covBy
    rw [Fin.covBy_iff, Nat.covBy_iff_add_one_eq]
    change offset.val - 1 + 1 = offset.val
    omega

/-! ## The byte map -/

/-- Some lock of this kind, owner and type covers the byte. -/
def Holds (locks : List ActiveLock) (kind : FileLockKind) (owner : FileLockOwner)
    (lockType : FileLockType) (byte : Offset) : Prop :=
  ∃ lock ∈ locks, lock.kind = kind ∧ lock.owner = owner ∧
    lock.lockType = lockType ∧ lock.range.Covers byte

/-- Two locks of one kind, owner and type. -/
def SameClass (first second : ActiveLock) : Prop :=
  first.kind = second.kind ∧ first.owner = second.owner ∧ first.lockType = second.lockType

/-- The segments of a table are valid and none of them could be merged. -/
structure Canonical (locks : List ActiveLock) : Prop where
  valid : ∀ lock ∈ locks, lock.range.Valid
  typed : ∀ lock ∈ locks, lock.lockType ≠ .unlock
  apart : locks.Pairwise fun first second =>
    SameClass first second → ¬ Segment.Near first.range second.range
  single : ∀ {kind owner byte first second},
    Holds locks kind owner first byte → Holds locks kind owner second byte → first = second

variable {locks : List ActiveLock} {lock piece : ActiveLock}
  {kind : FileLockKind} {owner : FileLockOwner} {remove : FileLockRange}

lemma Canonical.nil : Canonical [] where
  valid := by simp
  typed := by simp
  apart := .nil
  single := by simp [Holds]

variable {fewer : List ActiveLock} {lockType : FileLockType} {byte : Offset}

lemma Holds.mono (hsubset : fewer ⊆ locks) (hhas : Holds fewer kind owner lockType byte) :
    Holds locks kind owner lockType byte := by
  obtain ⟨lock, hlk, hfi⟩ := hhas
  exact ⟨lock, hsubset hlk, hfi⟩

lemma Canonical.sublist (hlocks : Canonical locks)
    (hfewer : fewer.Sublist locks) : Canonical fewer where
  valid := fun lock hlc => hlocks.valid lock (hfewer.subset hlc)
  typed := fun lock hlc => hlocks.typed lock (hfewer.subset hlc)
  apart := hlocks.apart.sublist hfewer
  single := fun hfs hsn =>
    hlocks.single (hfs.mono hfewer.subset) (hsn.mono hfewer.subset)

lemma holds_append
     : Holds (locks ++ more) kind owner lockType byte ↔ Holds locks kind owner lockType byte ∨
        Holds more kind owner lockType byte := by
  simp only [Holds, mem_append, or_and_right, exists_or]

lemma holds_of_perm (hperm : locks.Perm more) :
    Holds locks kind owner lockType byte ↔ Holds more kind owner lockType byte := by
  simp only [Holds, hperm.mem_iff]

lemma holds_cons : Holds (lock :: locks) kind owner lockType byte ↔
      (lock.kind = kind ∧ lock.owner = owner ∧ lock.lockType = lockType ∧
        lock.range.Covers byte) ∨ Holds locks kind owner lockType byte := by
  simp [Holds]

/-! ## Trimming -/

/-- The lock is of the trimmed owner and meets the trimmed range. -/
def IsTrimmed (kind : FileLockKind) (owner : FileLockOwner)
    (remove : FileLockRange) (lock : ActiveLock) : Prop :=
  lock.kind = kind ∧ lock.owner = owner ∧ Segment.Overlaps lock.range remove

lemma trimLock_of_not (hlock : ¬ IsTrimmed kind owner remove lock) :
    trimLock kind owner remove lock = [lock] := by
  unfold trimLock
  rw [if_pos]
  simp only [IsTrimmed, ← overlaps_iff, not_and_or] at hlock
  simpa using hlock

lemma trimLock_of_trimmed (hlock : IsTrimmed kind owner remove lock) :
    trimLock kind owner remove lock = (Segment.cut lock.range remove).map fun range =>
        { lock with range := range } := by
  obtain ⟨hkn, how, hov⟩ := hlock
  rw [← overlaps_iff] at hov
  unfold trimLock Segment.cut
  rw [if_neg (by simp [hkn, how, hov]), Offset.saturatingPrevious_eq, Offset.saturatingNext_eq]
  split <;> split <;> rfl

/-- A piece keeps everything of its lock but the range, which lies within the
range of the lock. -/
lemma mem_trimLock (hok : lock.range.Valid) (hpiece : piece ∈ trimLock kind owner remove lock) :
    SameClass piece lock ∧ piece.range.Valid ∧ lock.range.start ≤ piece.range.start ∧
      piece.range.stop ≤ lock.range.stop := by
  by_cases hlk : IsTrimmed kind owner remove lock
  · rw [trimLock_of_trimmed hlk, mem_map] at hpiece
    obtain ⟨range, hrg, rfl⟩ := hpiece
    obtain ⟨hin, hst⟩ := Segment.inner_of_mem_cut hlk.2.2 hrg
    exact ⟨⟨rfl, rfl, rfl⟩, Segment.valid_of_mem_cut hrg, hin, hst⟩
  · rw [trimLock_of_not hlk, mem_singleton] at hpiece
    subst hpiece
    exact ⟨⟨rfl, rfl, rfl⟩, hok, le_rfl, le_rfl⟩

lemma trimLock_covers (hok : lock.range.Valid) (hremove : remove.Valid) :
    (∃ piece ∈ trimLock kind owner remove lock, piece.range.Covers byte) ↔
      lock.range.Covers byte ∧ ¬ (lock.kind = kind ∧ lock.owner = owner ∧ remove.Covers byte) := by
  by_cases hlk : IsTrimmed kind owner remove lock
  · rw [trimLock_of_trimmed hlk]
    have hct : (∃ piece ∈ Segment.cut lock.range remove, piece.Covers byte) ↔
        lock.range.Covers byte ∧ ¬ remove.Covers byte :=
      Segment.covers_cut hlk.2.2
    simpa [hlk.1, hlk.2.1] using hct
  · rw [trimLock_of_not hlk]
    simp only [mem_singleton, exists_eq_left, iff_self_and, not_and]
    intro hcv hkn how hre
    refine hlk ⟨hkn, how, ?_⟩
    rw [Segment.overlaps_iff hok hremove]
    exact ⟨byte, hcv, hre⟩

lemma holds_trimSameOwnerRange (hok : ∀ lock ∈ locks, lock.range.Valid) (hcut : remove.Valid) :
    Holds (trimSameOwnerRange locks kind owner remove) asked asking lockType byte ↔
      Holds locks asked asking lockType byte ∧
        ¬ (asked = kind ∧ asking = owner ∧ remove.Covers byte) := by
  constructor
  · rintro ⟨piece, hpc, hkn, how, hty, hcv⟩
    obtain ⟨lock, hlk, hpc⟩ := mem_flatMap.mp hpc
    obtain ⟨hcl, -⟩ := mem_trimLock (hok lock hlk) hpc
    have hot := (trimLock_covers (hok lock hlk) hcut).mp ⟨piece, hpc, hcv⟩
    rw [hcl.1] at hkn
    rw [hcl.2.1] at how
    rw [hcl.2.2] at hty
    rw [hkn, how] at hot
    exact ⟨⟨lock, hlk, hkn, how, hty, hot.1⟩, hot.2⟩
  · rintro ⟨⟨lock, hlk, hkn, how, hty, hcv⟩, hot⟩
    have hpi := (trimLock_covers (hok lock hlk) hcut).mpr ⟨hcv, by rwa [hkn, how]⟩
    obtain ⟨piece, hpc, hco⟩ := hpi
    obtain ⟨hcl, -⟩ := mem_trimLock (hok lock hlk) hpc
    exact ⟨piece, mem_flatMap.mpr ⟨lock, hlk, hpc⟩,
      hcl.1.trans hkn, hcl.2.1.trans how, hcl.2.2.trans hty, hco⟩

lemma trimLock_pairwise (hcut : remove.Valid) :
    (trimLock kind owner remove lock).Pairwise fun first second =>
      SameClass first second → ¬ Segment.Near first.range second.range := by
  by_cases hlk : IsTrimmed kind owner remove lock
  · rw [trimLock_of_trimmed hlk, pairwise_map]
    refine List.Pairwise.imp ?_ (Segment.pairwise_cut hcut)
    exact fun hfr _ => hfr
  · rw [trimLock_of_not hlk]
    exact pairwise_singleton _ _

lemma Canonical.trim (hlocks : Canonical locks) (hcut : remove.Valid) :
    Canonical (trimSameOwnerRange locks kind owner remove) where
  valid := by
    intro piece hpc
    obtain ⟨lock, hlc, hpc⟩ := mem_flatMap.mp hpc
    exact (mem_trimLock (hlocks.valid lock hlc) hpc).2.1
  typed := by
    intro piece hpc
    obtain ⟨lock, hlc, hpc⟩ := mem_flatMap.mp hpc
    rw [(mem_trimLock (hlocks.valid lock hlc) hpc).1.2.2]
    exact hlocks.typed lock hlc
  apart := by
    unfold trimSameOwnerRange
    rw [pairwise_flatMap]
    refine ⟨fun lock _ => trimLock_pairwise hcut, ?_⟩
    refine hlocks.apart.imp_of_mem ?_
    intro first second hfs hsn hfr inner hin other ho hcl
    have hok := hlocks.valid first hfs
    have hvl' := hlocks.valid second hsn
    obtain ⟨heq, hiv, hii, hst⟩ := mem_trimLock hok hin
    obtain ⟨hsm', hot, hst', hso'⟩ := mem_trimLock hvl' ho
    refine Segment.not_near_of_inner hok hvl' hiv hot hii hst hst' hso' (hfr ⟨?_, ?_, ?_⟩)
    · exact heq.1.symm.trans (hcl.1.trans hsm'.1)
    · exact heq.2.1.symm.trans (hcl.2.1.trans hsm'.2.1)
    · exact heq.2.2.symm.trans (hcl.2.2.trans hsm'.2.2)
  single := by
    intro askedKind asking byte first second hfs hsn
    rw [holds_trimSameOwnerRange hlocks.valid hcut] at hfs hsn
    exact hlocks.single hfs.1 hsn.1

/-! ## The order of the merge -/

lemma FileLockKind.rank_injective : Function.Injective FileLockKind.rank := by
  intro first second heq
  cases first <;> cases second <;> first | rfl | cases heq

lemma FileLockType.rank_injective : Function.Injective FileLockType.rank := by
  intro first second heq
  cases first <;> cases second <;> first | rfl | cases heq

instance : TransCmp classCompare :=
  inferInstanceAs (TransCmp (compareLex (compareOn fun lock => lock.kind.rank)
    (compareLex (compareOn ActiveLock.owner) (compareOn fun lock => lock.lockType.rank))))

instance : TransCmp lockCompare :=
  inferInstanceAs (TransCmp (compareLex classCompare
    (compareLex (compareOn fun lock => lock.range.start.val)
      (compareLex (compareOn fun lock => lock.range.stop.val) (compareOn ActiveLock.seq)))))

variable {first second : ActiveLock}

lemma classCompare_eq : classCompare first second = .eq ↔ SameClass first second := by
  simp only [classCompare, compareLex_eq_eq, compareOn, Std.compare_eq_iff_eq,
    FileLockKind.rank_injective.eq_iff, FileLockType.rank_injective.eq_iff]
  rfl

/-- Where a lock stands relative to a later one of the sorted list. -/
def Ahead (first second : ActiveLock) : Prop :=
  classCompare first second = .lt ∨ SameClass first second ∧ first.range.start ≤ second.range.start

lemma ahead_of_le (hle : (lockCompare first second).isLE = true) : Ahead first second := by
  rw [lockCompare, compareLex] at hle
  cases h : classCompare first second with
  | lt => exact .inl h
  | gt => simp [h] at hle
  | eq =>
    refine .inr ⟨classCompare_eq.mp h, ?_⟩
    rw [h] at hle
    change (compareLex _ _ first second).isLE = true at hle
    rw [compareLex] at hle
    by_contra hlt
    rw [Fin.le_def, Nat.not_le] at hlt
    have hgt : compareOn (fun lock : ActiveLock => lock.range.start.val)
        first second = .gt := Nat.compare_eq_gt.mpr hlt
    simp [hgt] at hle

lemma SameClass.symm (hclass : SameClass first second) : SameClass second first :=
  ⟨hclass.1.symm, hclass.2.1.symm, hclass.2.2.symm⟩

variable {third : ActiveLock}

lemma SameClass.trans (hone : SameClass first second) (htwo : SameClass second third) :
    SameClass first third :=
  ⟨hone.1.trans htwo.1, hone.2.1.trans htwo.2.1, hone.2.2.trans htwo.2.2⟩

lemma Ahead.start_le (hahead : Ahead first second) (hclass : SameClass first second) :
    first.range.start ≤ second.range.start := by
  rcases hahead with hlt | ⟨_, hle⟩
  · rw [← classCompare_eq, hlt] at hclass
    cases hclass
  · exact hle

lemma Ahead.between (hone : Ahead first second) (htwo : Ahead second third)
    (hclass : SameClass first third) : SameClass first second := by
  rcases hone with hlt | ⟨heq, _⟩
  · have hfr : classCompare first third = .lt := by
      rcases htwo with hlt' | ⟨hsm', _⟩
      · exact TransCmp.lt_trans hlt hlt'
      · exact TransCmp.lt_of_lt_of_eq hlt (classCompare_eq.mpr hsm')
    rw [← classCompare_eq, hfr] at hclass
    cases hclass
  · exact heq

/-- Only the class and the start of a lock matter for what it is ahead of. -/
lemma Ahead.of_same (hclass : SameClass first second)
    (hstart : first.range.start = second.range.start)
    (hahead : Ahead first third) : Ahead second third := by
  rcases hahead with hlt | ⟨heq, hle⟩
  · exact .inl (TransCmp.lt_of_eq_of_lt (classCompare_eq.mpr hclass.symm) hlt)
  · exact .inr ⟨hclass.symm.trans heq, hstart ▸ hle⟩

/-! ## Merging -/

/-- A point between two locks keeps them from being merged. -/
def Separated (first second : ActiveLock) : Prop :=
  SameClass first second → ∃ point, first.range.stop < point ∧ point < second.range.start

/-- What the merge has built so far, latest lock first. -/
structure Merged (merged : List ActiveLock) : Prop where
  valid : ∀ lock ∈ merged, lock.range.Valid
  ordered : merged.Pairwise fun later earlier =>
    Ahead earlier later ∧ Separated earlier later

lemma Separated.not_near (hseparated : Separated first second) (hone : first.range.Valid)
    (htwo : second.range.Valid) (hclass : SameClass first second) :
    ¬ Segment.Near first.range second.range :=
  (Segment.not_near_iff hone htwo).mpr (.inl (hseparated hclass))

variable {last : ActiveLock} {merged rest : List ActiveLock}

/-- The lock is merged into the last one. -/
def Joins (last lock : ActiveLock) : Prop :=
  SameClass last lock ∧ Segment.Near last.range lock.range

def joined (last lock : ActiveLock) : ActiveLock :=
  { last with
    range := Segment.join last.range lock.range
    seq := min last.seq lock.seq }

lemma mergeLock_of_joins (hjoins : Joins last lock) :
    mergeLock (last :: rest) lock = joined last lock :: rest := by
  obtain ⟨⟨hkn, how, hty⟩, hnr⟩ := hjoins
  rw [← touchesOrOverlaps_iff] at hnr
  exact if_pos ⟨hkn, how, hty, hnr⟩

lemma mergeLock_of_not (hjoins : ¬ Joins last lock) :
    mergeLock (last :: rest) lock = lock :: last :: rest := by
  refine if_neg ?_
  rintro ⟨hkn, how, hty, hnr⟩
  exact hjoins ⟨⟨hkn, how, hty⟩, touchesOrOverlaps_iff.mp hnr⟩

lemma Merged.separated (hmerged : Merged (last :: rest))
    (hlock : lock.range.Valid) (hahead : ∀ other ∈ last :: rest, Ahead other lock)
    (hjoins : ¬ Joins last lock) : ∀ other ∈ last :: rest, Separated other lock := by
  have hls := hahead last mem_cons_self
  intro other ho hcl
  rcases mem_cons.mp ho with rfl | hr
  · have hfr : ¬ Segment.Near other.range lock.range := fun hnr => hjoins ⟨hcl, hnr⟩
    rw [Segment.not_near_iff (hmerged.valid other ho) hlock] at hfr
    rcases hfr with hgp | ⟨point, hlw, hhg⟩
    · exact hgp
    · have hbc := (hlw.trans hhg).trans_le (hls.start_le hcl)
      exact absurd hbc (LE.le.not_gt hlock)
  · obtain ⟨hb, hsp⟩ := (pairwise_cons.mp hmerged.ordered).1 other hr
    have heq := hb.between hls hcl
    obtain ⟨point, hlw, hhg⟩ := hsp heq
    exact ⟨point, hlw, hhg.trans_le (hls.start_le (heq.symm.trans hcl))⟩

lemma Merged.mergeLock (hmerged : Merged merged) (hlock : lock.range.Valid)
    (hahead : ∀ other ∈ merged, Ahead other lock) : Merged (mergeLock merged lock) := by
  cases merged with
  | nil => exact ⟨by simpa [Locks.mergeLock] using hlock, pairwise_singleton _ _⟩
  | cons last rest =>
    obtain ⟨hor, hr⟩ := pairwise_cons.mp hmerged.ordered
    by_cases hjo : Joins last lock
    · rw [mergeLock_of_joins hjo]
      refine ⟨?_, pairwise_cons.mpr ⟨?_, hr⟩⟩
      · intro other ho
        rcases mem_cons.mp ho with rfl | ho
        · exact Segment.join_valid (hmerged.valid last mem_cons_self)
        · exact hmerged.valid other (mem_cons_of_mem _ ho)
      · exact fun other ho => hor other ho
    · rw [mergeLock_of_not hjo]
      refine ⟨?_, pairwise_cons.mpr ⟨?_, hmerged.ordered⟩⟩
      · intro other ho
        rcases mem_cons.mp ho with rfl | ho
        · exact hlock
        · exact hmerged.valid other ho
      · exact fun other ho => ⟨hahead other ho, hmerged.separated hlock hahead hjo other ho⟩

lemma mergeLock_ahead (hmerged : ∀ other ∈ merged, Ahead other next) (hlock : Ahead lock next) :
    ∀ other ∈ mergeLock merged lock, Ahead other next := by
  cases merged with
  | nil => simpa [mergeLock] using hlock
  | cons last rest =>
    by_cases h : Joins last lock
    · rw [mergeLock_of_joins h]
      rw [forall_mem_cons] at hmerged ⊢
      refine ⟨hmerged.1.of_same ?_ rfl, hmerged.2⟩
      exact ⟨rfl, rfl, rfl⟩
    · rw [mergeLock_of_not h]
      exact forall_mem_cons.mpr ⟨hlock, hmerged⟩

lemma holds_mergeLock (hlock : lock.range.Valid) (hahead : ∀ other ∈ merged, Ahead other lock)
     : Holds (mergeLock merged lock) kind owner lockType byte ↔
      Holds (lock :: merged) kind owner lockType byte := by
  cases merged with
  | nil => rfl
  | cons last rest =>
    by_cases hjo : Joins last lock
    · rw [mergeLock_of_joins hjo, holds_cons, holds_cons, holds_cons, ← or_assoc]
      apply or_congr_left
      obtain ⟨hcl, hnr⟩ := hjo
      have hin := (hahead last mem_cons_self).start_le hcl
      have hcv : (Segment.join last.range lock.range).Covers byte ↔
          last.range.Covers byte ∨ lock.range.Covers byte :=
        Segment.covers_join hlock hin hnr
      simp only [joined, hcv]
      rw [hcl.1, hcl.2.1, hcl.2.2]
      tauto
    · rw [mergeLock_of_not hjo]

lemma foldl_mergeLock (hsort : locks.Pairwise Ahead)
    (hok : ∀ lock ∈ locks, lock.range.Valid) (hmerged : Merged merged)
    (hahead : ∀ lock ∈ locks, ∀ other ∈ merged, Ahead other lock) :
    Merged (locks.foldl mergeLock merged) ∧ ∀ kind owner lockType byte,
        Holds (locks.foldl mergeLock merged) kind owner lockType byte ↔
          Holds (locks ++ merged) kind owner lockType byte := by
  induction locks generalizing merged with
  | nil => exact ⟨hmerged, fun _ _ _ _ => Iff.rfl⟩
  | cons lock locks ih =>
    rw [pairwise_cons] at hsort
    rw [forall_mem_cons] at hok hahead
    have hnx : ∀ next ∈ locks, ∀ other ∈ mergeLock merged lock, Ahead other next := fun next hin =>
      mergeLock_ahead (hahead.2 next hin) (hsort.1 next hin)
    obtain ⟨hrs, hhd⟩ := ih hsort.2 hok.2 (hmerged.mergeLock hok.1 hahead.1) hnx
    refine ⟨hrs, fun kind owner lockType byte => ?_⟩
    calc Holds (locks.foldl mergeLock (mergeLock merged lock)) kind owner
          lockType byte
      _ ↔ Holds (locks ++ mergeLock merged lock) kind owner lockType byte :=
          hhd kind owner lockType byte
      _ ↔ Holds (locks ++ lock :: merged) kind owner lockType byte := by
          rw [holds_append, holds_append, holds_mergeLock hok.1 hahead.1]
      _ ↔ Holds (lock :: locks ++ merged) kind owner lockType byte := holds_of_perm perm_middle

/-! ## Coalescing -/

lemma sorted_ahead (locks : List ActiveLock) : (locks.insertionSort fun left right =>
      (lockCompare left right).isLE = true).Pairwise Ahead := by
  have _ : Std.Total fun left right : ActiveLock =>
      (lockCompare left right).isLE = true := by
    constructor
    intro left right
    cases h : lockCompare left right with
    | lt | eq => exact .inl rfl
    | gt => exact .inr (by rw [OrientedCmp.lt_of_gt h]; rfl)
  have _ : IsTrans ActiveLock fun left right =>
      (lockCompare left right).isLE = true :=
    ⟨fun _ _ _ => TransCmp.isLE_trans⟩
  exact (pairwise_insertionSort _ locks).imp ahead_of_le

variable (hok : ∀ lock ∈ locks, lock.range.Valid)

include hok

lemma coalesce_merged : Merged (coalesce locks).reverse ∧ ∀ kind owner lockType byte,
      Holds (coalesce locks) kind owner lockType byte ↔ Holds locks kind owner lockType byte := by
  have hpr := perm_insertionSort
    (fun left right : ActiveLock => (lockCompare left right).isLE = true) locks
  have hem : Merged [] := ⟨by simp, .nil⟩
  obtain ⟨hmr, hhd⟩ := foldl_mergeLock (sorted_ahead locks)
    (fun lock hlk => hok lock (hpr.mem_iff.mp hlk)) hem (by simp)
  refine ⟨by simpa [coalesce] using hmr, fun kind owner lockType byte => ?_⟩
  rw [coalesce, holds_of_perm (reverse_perm _), hhd, append_nil, holds_of_perm hpr]

lemma coalesce_valid : ∀ lock ∈ coalesce locks, lock.range.Valid := by
  intro lock h
  exact (coalesce_merged hok).1.valid lock (mem_reverse.mpr h)

lemma holds_coalesce :
    Holds (coalesce locks) kind owner lockType byte ↔ Holds locks kind owner lockType byte :=
  (coalesce_merged hok).2 kind owner lockType byte

lemma coalesce_apart : (coalesce locks).Pairwise fun first second =>
      SameClass first second → ¬ Segment.Near first.range second.range := by
  have hor := pairwise_reverse.mp (coalesce_merged hok).1.ordered
  refine hor.imp_of_mem ?_
  intro first second hfs hsn hpr
  exact hpr.2.not_near (coalesce_valid hok first hfs) (coalesce_valid hok second hsn)

omit hok

lemma holds_start (hlock : lock ∈ locks) (hok : lock.range.Valid) :
    Holds locks lock.kind lock.owner lock.lockType lock.range.start :=
  ⟨lock, hlock, rfl, rfl, rfl, le_rfl, hok⟩

lemma Canonical.coalesce (hok : ∀ lock ∈ locks, lock.range.Valid)
    (htyped : ∀ lock ∈ locks, lock.lockType ≠ .unlock) (hsingle : ∀ {kind owner byte first second},
      Holds locks kind owner first byte → Holds locks kind owner second byte →
        first = second) : Canonical (coalesce locks) where
  valid := coalesce_valid hok
  typed := by
    intro lock hlk
    have hhd := holds_start hlk (coalesce_valid hok lock hlk)
    rw [holds_coalesce hok] at hhd
    obtain ⟨source, hsr, _, _, hte, _⟩ := hhd
    rw [← hte]
    exact htyped source hsr
  apart := coalesce_apart hok
  single := by
    intro kind owner byte first second hfs hsn
    rw [holds_coalesce hok] at hfs hsn
    exact hsingle hfs hsn

/-! ## Applying a request -/

variable {state : LockTableState} {request : LockRequest}

/-- The request asks about this kind, owner and byte. -/
def Asks (request : LockRequest) (kind : FileLockKind) (owner : FileLockOwner)
    (byte : Offset) : Prop :=
  kind = request.kind ∧ owner = request.owner ∧ request.range.Covers byte

lemma holds_requested (hlocks : Canonical locks) (hrange : request.range.Valid) :
    Holds (trimSameOwnerRange locks request.kind request.owner request.range ++
        [request.lock seq]) kind owner lockType byte ↔
      Holds locks kind owner lockType byte ∧ ¬ Asks request kind owner byte ∨
        Asks request kind owner byte ∧ lockType = request.lockType := by
  rw [holds_append, holds_trimSameOwnerRange hlocks.valid hrange]
  apply or_congr_right
  simp only [Holds, mem_singleton, exists_eq_left, LockRequest.lock, Asks]
  tauto

lemma requested_valid (hlocks : Canonical locks) (hrange : request.range.Valid) (seq) :
    ∀ lock ∈ trimSameOwnerRange locks request.kind request.owner
      request.range ++ [request.lock seq], lock.range.Valid := by
  intro lock h
  rcases mem_append.mp h with h | h
  · exact (hlocks.trim hrange).valid lock h
  · rw [mem_singleton] at h
    subst h
    exact hrange

lemma holds_candidate (hlocks : Canonical state.locks) (hrange : request.range.Valid) :
    Holds (candidate state request).1 kind owner lockType byte ↔
      Holds state.locks kind owner lockType byte ∧ ¬ Asks request kind owner byte ∨
        Asks request kind owner byte ∧ lockType = request.lockType ∧ lockType ≠ .unlock := by
  unfold candidate
  split
  next hun =>
    rw [holds_trimSameOwnerRange hlocks.valid hrange, hun]
    exact (or_iff_left (fun hnn => hnn.2.2 hnn.2.1)).symm
  next hlc =>
    rw [holds_coalesce (requested_valid hlocks hrange _), holds_requested hlocks hrange]
    refine or_congr_right (and_congr_right fun _ => ?_)
    exact (and_iff_left_of_imp fun hty => hty ▸ hlc).symm

lemma Canonical.candidate (hlocks : Canonical state.locks)
    (hrange : request.range.Valid) : Canonical (candidate state request).1 := by
  unfold Locks.candidate
  split
  · exact hlocks.trim hrange
  next hlc =>
    apply Canonical.coalesce (requested_valid hlocks hrange _)
    · intro lock hin
      rcases mem_append.mp hin with hin | hin
      · exact (hlocks.trim hrange).typed lock hin
      · rw [mem_singleton] at hin
        subst hin
        exact hlc
    · intro kind owner byte first second hfs hsn
      rw [holds_requested hlocks hrange] at hfs hsn
      rcases hfs with ⟨hfs, hot⟩ | ⟨hask, hfs⟩
      · rcases hsn with ⟨hsn, _⟩ | ⟨hask, _⟩
        · exact hlocks.single hfs hsn
        · exact absurd hask hot
      · rcases hsn with ⟨_, hot⟩ | ⟨_, hsn⟩
        · exact absurd hask hot
        · exact hfs.trans hsn.symm

/-! ## Conflicts -/

lemma earliest_eq_none : earliest locks = none ↔ locks = [] := by
  cases locks with
  | nil => simp [earliest]
  | cons lock locks =>
    unfold earliest
    split
    · simp
    · split <;> simp

lemma firstConflict_eq_none (htype : request.lockType ≠ .unlock) :
    firstConflict locks request = none ↔ ∀ lock ∈ locks, conflicts lock request = false := by
  simp [firstConflict, htype, earliest_eq_none]

/-- Locks of different owners that share a byte are read locks. -/
def Exclusive (locks : List ActiveLock) : Prop :=
  ∀ ⦃kind first second firstType secondType byte⦄, first ≠ second →
    Holds locks kind first firstType byte →
    Holds locks kind second secondType byte → firstType = .read ∧ secondType = .read

lemma Exclusive.nil : Exclusive [] := by
  intro kind first second firstType secondType byte _ h
  simp [Holds] at h

lemma Exclusive.sublist (hlocks : Exclusive locks)
    (hfewer : fewer.Sublist locks) : Exclusive fewer := by
  intro kind first second firstType secondType byte hne hfs hsn
  exact hlocks hne (hfs.mono hfewer.subset) (hsn.mono hfewer.subset)

/-- Nothing held by others stands against the request. -/
def Unopposed (locks : List ActiveLock) (request : LockRequest) : Prop :=
  request.lockType = .unlock ∨ firstConflict locks request = none

lemma Unopposed.shares (hunop : Unopposed locks request)
    (htyped : ∀ lock ∈ locks, lock.lockType ≠ .unlock)
    (htype : request.lockType ≠ .unlock) (hown : owner ≠ request.owner)
    (hhas : Holds locks request.kind owner lockType byte) (hspan : request.range.Covers byte) :
    lockType = .read ∧ request.lockType = .read := by
  have hnn := (firstConflict_eq_none htype).mp (hunop.resolve_left htype)
  obtain ⟨lock, hlk, hkn, rfl, rfl, hh⟩ := hhas
  have hov : overlaps lock.range request.range = true :=
    overlaps_iff.mpr ⟨hh.1.trans hspan.2, hspan.1.trans hh.2⟩
  have hfr := hnn lock hlk
  simp only [conflicts, hkn, hown, hov, decide_true, ne_eq,
    not_false_eq_true, Bool.and_self, Bool.true_and, Bool.or_eq_false_iff,
    decide_eq_false_iff_not] at hfr
  constructor
  · cases hht : lock.lockType with
    | read => rfl
    | write => exact absurd hht hfr.1
    | unlock => exact absurd hht (htyped lock hlk)
  · cases hak : request.lockType with
    | read => rfl
    | write => exact absurd hak hfr.2
    | unlock => exact absurd hak htype

lemma Exclusive.candidate (hexcl : Exclusive state.locks)
    (hlocks : Canonical state.locks) (hrange : request.range.Valid)
    (hunop : Unopposed state.locks request) : Exclusive (candidate state request).1 := by
  intro kind first second firstType secondType byte hne hfs hsn
  rw [holds_candidate hlocks hrange] at hfs hsn
  rcases hfs with ⟨hfs, _⟩ | ⟨⟨rfl, rfl, hcv⟩, rfl, hty⟩
  · rcases hsn with ⟨hsn, _⟩ | ⟨⟨rfl, rfl, hcv⟩, rfl, hty⟩
    · exact hexcl hne hfs hsn
    · exact hunop.shares hlocks.typed hty hne hfs hcv
  · rcases hsn with ⟨hsn, _⟩ | ⟨⟨_, heq, _⟩, _⟩
    · exact (hunop.shares hlocks.typed hty hne.symm hsn hcv).symm
    · exact absurd heq.symm hne

end AgentDx.Locks
