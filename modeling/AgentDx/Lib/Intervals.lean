import Mathlib

/-!
# Merging of intervals

Half-open intervals of a linear order, as pairs.  Intervals that are ordered by
their starts merge in one pass, and what is left covers the same points and has a
gap between any two.
-/

namespace AgentDx.Intervals

open List

variable {A : Type*} [LinearOrder A]

def Covered (intervals : List (A × A)) (point : A) : Prop :=
  ∃ interval ∈ intervals, interval.1 ≤ point ∧ point < interval.2

/-- Extends the last interval while the next one starts within it or at its end. -/
def mergeInto (last : A × A) : List (A × A) → List (A × A)
  | [] => [last]
  | next :: rest =>
    if next.1 ≤ last.2 then mergeInto (last.1, max last.2 next.2) rest
    else last :: mergeInto next rest

def merge : List (A × A) → List (A × A)
  | [] => []
  | first :: rest => mergeInto first rest

/-- Nonempty intervals in order, with a gap between any two. -/
structure Separated (intervals : List (A × A)) : Prop where
  nonempty : ∀ interval ∈ intervals, interval.1 < interval.2
  gaps : intervals.Pairwise fun left right => left.2 < right.1

variable {intervals rest : List (A × A)} {last : A × A} {low high : A}

lemma mergeInto_spec (hlast : last.1 < last.2) (hrest : ∀ interval ∈ rest, interval.1 < interval.2)
    (hsort : (last :: rest).Pairwise fun left right => left.1 ≤ right.1) :
    Separated (mergeInto last rest) ∧ (∀ interval ∈ mergeInto last rest, last.1 ≤ interval.1) ∧
      ∀ point, Covered (mergeInto last rest) point ↔ Covered (last :: rest) point := by
  induction rest generalizing last with
  | nil => exact ⟨⟨by simpa [mergeInto] using hlast, pairwise_singleton _ _⟩, by simp [mergeInto],
      fun point => Iff.rfl⟩
  | cons next rest ih =>
    obtain ⟨hnx, hrest⟩ := forall_mem_cons.mp hrest
    obtain ⟨hfr, hsort⟩ := pairwise_cons.mp hsort
    obtain ⟨hst, hlt⟩ := forall_mem_cons.mp hfr
    unfold mergeInto
    split
    next hto =>
      obtain ⟨hsp, hbo, hcv⟩ := @ih (last.1, max last.2 next.2)
        (hlast.trans_le (le_max_left _ _)) hrest
        (pairwise_cons.mpr ⟨hlt, (pairwise_cons.mp hsort).2⟩)
      refine ⟨hsp, hbo, fun point => (hcv point).trans ?_⟩
      have hjo : (last.1 ≤ point ∧ point < max last.2 next.2) ↔
          (last.1 ≤ point ∧ point < last.2) ∨ (next.1 ≤ point ∧ point < next.2) := by
        grind
      simp only [Covered, exists_mem_cons_iff, hjo, or_assoc]
    next hgp =>
      obtain ⟨hsp, hbo, hcv⟩ := ih hnx hrest hsort
      rw [not_le] at hgp
      refine ⟨⟨forall_mem_cons.mpr ⟨hlast, hsp.nonempty⟩, pairwise_cons.mpr ⟨?_, hsp.gaps⟩⟩,
        forall_mem_cons.mpr ⟨le_rfl, ?_⟩, fun point => ?_⟩
      · intro interval hin
        exact hgp.trans_le (hbo interval hin)
      · intro interval hin
        exact hst.trans (hbo interval hin)
      · have hpo := hcv point
        simp only [Covered, exists_mem_cons_iff] at hpo ⊢
        rw [hpo]

lemma merge_spec (hlt : ∀ interval ∈ intervals, interval.1 < interval.2)
    (hsort : intervals.Pairwise fun left right => left.1 ≤ right.1) :
    Separated (merge intervals) ∧ ∀ point, Covered (merge intervals) point ↔
        Covered intervals point := by
  cases intervals with
  | nil => exact ⟨⟨by simp [merge], .nil⟩, fun point => Iff.rfl⟩
  | cons first rest =>
    obtain ⟨hfr, hr⟩ := forall_mem_cons.mp hlt
    obtain ⟨hsp, -, hcv⟩ := mergeInto_spec hfr hr hsort
    exact ⟨hsp, hcv⟩

lemma Separated.covers_range (hsep : Separated intervals) (hlt : low < high) :
    (∀ point, low ≤ point → point < high → Covered intervals point) ↔
      ∃ interval ∈ intervals, interval.1 ≤ low ∧ high ≤ interval.2 := by
  constructor
  · intro hcv
    obtain ⟨interval, hm, hlw, hin⟩ := hcv low le_rfl hlt
    refine ⟨interval, hm, hlw, not_lt.mp fun hen => ?_⟩
    -- The end of the interval is in the range, and no other interval holds it.
    obtain ⟨other, hot, hfr, hto⟩ := hcv interval.2 hin.le hen
    have hne : interval ≠ other := by
      rintro rfl
      exact lt_irrefl _ hto
    let apart : A × A → A × A → Prop := fun left right => left.2 < right.1 ∨ right.2 < left.1
    have : Std.Symm apart := ⟨fun _ _ => Or.symm⟩
    have hap : intervals.Pairwise apart := hsep.gaps.imp Or.inl
    rcases hap.forall hm hot hne with hgp | hgp
    · exact hgp.not_ge hfr
    · exact (hto.trans hgp).not_ge (hlw.trans hin.le)
  · rintro ⟨interval, hm, hlw, hhg⟩ point hfr hto
    exact ⟨interval, hm, hlw.trans hfr, hto.trans_le hhg⟩

/-! ## Numbers -/

lemma Separated.stop_eq {intervals : List (ℕ × ℕ)} {interval : ℕ × ℕ} (hsep : Separated intervals)
    (hmem : interval ∈ intervals) : interval.1 + (interval.2 - interval.1) = interval.2 :=
  Nat.add_sub_cancel' (hsep.nonempty interval hmem).le

lemma Separated.exists_span {intervals : List (ℕ × ℕ)} (hsep : Separated intervals)
    (holds : ℕ → ℕ → Prop) : (∃ interval ∈ intervals.map fun (start, stop) => (start, stop - start),
      holds interval.1 (interval.1 + interval.2)) ↔
      ∃ interval ∈ intervals, holds interval.1 interval.2 := by
  simp only [mem_map, exists_exists_and_eq_and]
  refine exists_congr fun interval => and_congr_right fun hm => ?_
  rw [hsep.stop_eq hm]

end AgentDx.Intervals
