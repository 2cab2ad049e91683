import Mathlib

/-!
# Segments of a linear order

Closed segments of an order in which every point has a neighbour on each side,
or is an end of the order.  Cutting one segment out of another leaves at most
two pieces; joining two segments that overlap or touch leaves one.  What matters
about each operation is the set of points it covers.
-/

namespace AgentDx.Segments

@[ext]
structure Segment (A : Type) where
  start : A
  stop : A
  deriving DecidableEq

namespace Segment

variable {A : Type} [LinearOrder A]

def Valid (segment : Segment A) : Prop := segment.start ≤ segment.stop

def Covers (segment : Segment A) (point : A) : Prop := segment.start ≤ point ∧ point ≤ segment.stop

def Overlaps (first second : Segment A) : Prop :=
  first.start ≤ second.stop ∧ second.start ≤ first.stop

/-- One segment ends right before the other one starts. -/
def Touches (first second : Segment A) : Prop :=
  first.stop ⋖ second.start ∨ second.stop ⋖ first.start

def Near (first second : Segment A) : Prop := Overlaps first second ∨ Touches first second

variable {first second inner other : Segment A} {point : A}

instance (segment : Segment A) : Decidable segment.Valid := inferInstanceAs (Decidable (_ ≤ _))

instance (segment : Segment A) (point : A) : Decidable (segment.Covers point) :=
  inferInstanceAs (Decidable (_ ∧ _))

lemma overlaps_iff (hfirst : first.Valid) (hsecond : second.Valid) :
    Overlaps first second ↔ ∃ point, first.Covers point ∧ second.Covers point := by
  constructor
  · rintro ⟨hleft, hright⟩
    refine ⟨max first.start second.start, ⟨le_max_left _ _, ?_⟩, le_max_right _ _, ?_⟩
    · exact max_le hfirst hright
    · exact max_le hleft hsecond
  · rintro ⟨point, hone, htwo⟩
    exact ⟨hone.1.trans htwo.2, htwo.1.trans hone.2⟩

lemma not_near_iff (hfirst : first.Valid) (hsecond : second.Valid) :
    ¬ Near first second ↔ (∃ point, first.stop < point ∧ point < second.start) ∨
        ∃ point, second.stop < point ∧ point < first.start := by
  unfold Valid at hfirst hsecond
  constructor
  · intro hfar
    simp only [Near, Overlaps, Touches, not_or, not_and_or, not_le] at hfar
    obtain ⟨hapart, hone, htwo⟩ := hfar
    rcases hapart with hlt | hlt
    · exact .inr ((not_covBy_iff hlt).mp htwo)
    · exact .inl ((not_covBy_iff hlt).mp hone)
  · rintro (⟨point, hlow, hhigh⟩ | ⟨point, hlow, hhigh⟩)
    · rintro (⟨_, hle⟩ | hcov | hcov)
      · exact absurd (hlow.trans hhigh) (not_lt.mpr hle)
      · exact hcov.2 hlow hhigh
      · have hback := hcov.lt
        exact absurd (hsecond.trans_lt hback) (not_lt.mpr (hfirst.trans (hlow.trans hhigh).le))
    · rintro (⟨hle, _⟩ | hcov | hcov)
      · exact absurd (hlow.trans hhigh) (not_lt.mpr hle)
      · have hback := hcov.lt
        exact absurd (hfirst.trans_lt hback) (not_lt.mpr (hsecond.trans (hlow.trans hhigh).le))
      · exact hcov.2 hlow hhigh

lemma not_near_of_inner (hone : first.Valid) (htwo : second.Valid)
    (hinner : inner.Valid) (hother : other.Valid)
    (hstart : first.start ≤ inner.start) (hstop : inner.stop ≤ first.stop)
    (hstart' : second.start ≤ other.start) (hstop' : other.stop ≤ second.stop)
    (hfar : ¬ Near first second) : ¬ Near inner other := by
  rw [not_near_iff hone htwo] at hfar
  rw [not_near_iff hinner hother]
  rcases hfar with ⟨point, hlow, hhigh⟩ | ⟨point, hlow, hhigh⟩
  · exact .inl ⟨point, hstop.trans_lt hlow, hhigh.trans_le hstart'⟩
  · exact .inr ⟨point, hstop'.trans_lt hlow, hhigh.trans_le hstart⟩

/-! ## Joining -/

def join (first second : Segment A) : Segment A := ⟨first.start, max first.stop second.stop⟩

lemma join_valid (hone : first.Valid) : (join first second).Valid := hone.trans (le_max_left _ _)

lemma covers_join (htwo : second.Valid)
    (hstart : first.start ≤ second.start) (hnear : Near first second) :
    (join first second).Covers point ↔ first.Covers point ∨ second.Covers point := by
  constructor
  · rintro ⟨hlow, hhigh⟩
    rcases le_total point first.stop with hle | hge
    · exact .inl ⟨hlow, hle⟩
    · by_cases hin : second.start ≤ point
      · refine (le_max_iff.mp hhigh).imp (fun hle => ⟨hlow, hle⟩) fun hle => ?_
        exact ⟨hin, hle⟩
      · rw [not_le] at hin
        rcases hnear with ⟨_, hle⟩ | hcov | hcov
        · exact .inl ⟨hlow, (hin.trans_le hle).le⟩
        · rcases hge.lt_or_eq with hlt | heq
          · exact absurd hin (hcov.2 hlt)
          · exact .inl ⟨hlow, heq.ge⟩
        · have hback : second.stop < first.start := hcov.lt
          exact absurd (htwo.trans_lt hback) (not_lt.mpr hstart)
  · rintro (⟨hlow, hhigh⟩ | ⟨hlow, hhigh⟩)
    · exact ⟨hlow, hhigh.trans (le_max_left _ _)⟩
    · exact ⟨hstart.trans hlow, hhigh.trans (le_max_right _ _)⟩

/-! ## Cutting -/

variable [SuccOrder A] [PredOrder A] {removed piece : Segment A}

/-- What is left of a segment without the points of another one. -/
def cut (segment removed : Segment A) : List (Segment A) :=
  (if segment.start < removed.start then
    [⟨segment.start, Order.pred removed.start⟩] else []) ++ (if removed.stop < segment.stop then
    [⟨Order.succ removed.stop, segment.stop⟩] else [])

lemma mem_cut : piece ∈ cut first removed ↔
    first.start < removed.start ∧ piece = ⟨first.start, Order.pred removed.start⟩ ∨
    removed.stop < first.stop ∧ piece = ⟨Order.succ removed.stop, first.stop⟩ := by
  unfold cut
  split <;> split <;> simp_all

lemma valid_of_mem_cut (hpiece : piece ∈ cut first removed) : piece.Valid := by
  rcases mem_cut.mp hpiece with ⟨hlt, rfl⟩ | ⟨hlt, rfl⟩
  · exact Order.le_pred_of_lt hlt
  · exact Order.succ_le_of_lt hlt

lemma inner_of_mem_cut (hmeet : Overlaps first removed) (hpiece : piece ∈ cut first removed) :
    first.start ≤ piece.start ∧ piece.stop ≤ first.stop := by
  obtain ⟨hleft, hright⟩ := hmeet
  rcases mem_cut.mp hpiece with ⟨hlt, rfl⟩ | ⟨hlt, rfl⟩
  · exact ⟨le_rfl, (Order.pred_le _).trans hright⟩
  · exact ⟨hleft.trans (Order.le_succ _), le_rfl⟩

lemma covers_cut (hmeet : Overlaps first removed) :
    (∃ piece ∈ cut first removed, piece.Covers point) ↔
      first.Covers point ∧ ¬ removed.Covers point := by
  constructor
  · rintro ⟨piece, hpiece, hpoint⟩
    obtain ⟨hstart, hstop⟩ := inner_of_mem_cut hmeet hpiece
    refine ⟨⟨hstart.trans hpoint.1, hpoint.2.trans hstop⟩, ?_⟩
    rintro ⟨hlow, hhigh⟩
    rcases mem_cut.mp hpiece with ⟨hlt, rfl⟩ | ⟨hlt, rfl⟩
    · have hmin : ¬ IsMin removed.start := not_isMin_of_lt hlt
      have hlow' : point < removed.start := hpoint.2.trans_lt (Order.pred_lt_of_not_isMin hmin)
      exact absurd hlow' (not_lt.mpr hlow)
    · have hmax : ¬ IsMax removed.stop := not_isMax_of_lt hlt
      have hhigh' : removed.stop < point := (Order.lt_succ_of_not_isMax hmax).trans_le hpoint.1
      exact absurd hhigh' (not_lt.mpr hhigh)
  · rintro ⟨⟨hlow, hhigh⟩, houtside⟩
    by_cases hpre : point < removed.start
    · refine ⟨_, mem_cut.mpr (.inl ⟨hlow.trans_lt hpre, rfl⟩), hlow, ?_⟩
      exact Order.le_pred_of_lt hpre
    · have hpost : removed.stop < point := by
        rw [← not_le]
        exact fun hle => houtside ⟨not_lt.mp hpre, hle⟩
      refine ⟨_, mem_cut.mpr (.inr ⟨hpost.trans_le hhigh, rfl⟩), ?_, hhigh⟩
      exact Order.succ_le_of_lt hpost

lemma pairwise_cut (hgone : removed.Valid) :
    (cut first removed).Pairwise fun left right => ¬ Near left right := by
  unfold cut
  split
  next hpre =>
    split
    next hpost =>
      simp only [List.singleton_append, List.pairwise_cons, List.mem_singleton,
        forall_eq, List.not_mem_nil, IsEmpty.forall_iff, implies_true, List.Pairwise.nil, and_true]
      have hleft : Valid ⟨first.start, Order.pred removed.start⟩ := Order.le_pred_of_lt hpre
      have hright : Valid ⟨Order.succ removed.stop, first.stop⟩ := Order.succ_le_of_lt hpost
      rw [not_near_iff hleft hright]
      refine .inl ⟨removed.start, ?_, ?_⟩
      · exact Order.pred_lt_of_not_isMin (not_isMin_of_lt hpre)
      · exact hgone.trans_lt (Order.lt_succ_of_not_isMax (not_isMax_of_lt hpost))
    · simp
  · split <;> simp

end Segment

end AgentDx.Segments
