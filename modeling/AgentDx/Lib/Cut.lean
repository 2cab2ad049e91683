import Mathlib

/-!
# Cuts of ordered lists

A list ordered by a rank is cut at a bound: what comes before the cut is at most
the bound and what follows is above it.  A cut gives the two filters of the list
as its two parts, and bisection finds it.
-/

namespace AgentDx.Cut

open List

variable {A : Type} (rank : A → ℕ)

/-- `Cuts rank bound count list`: the first `count` elements are those of rank at
most `bound`. -/
structure Cuts (bound count : ℕ) (list : List A) : Prop where
  below : ∀ item ∈ list.take count, rank item ≤ bound
  above : ∀ item ∈ list.drop count, bound < rank item

variable {rank} {bound count : ℕ} {list : List A}

lemma Cuts.filter_le (hcuts : Cuts rank bound count list) :
    list.filter (fun item => decide (rank item ≤ bound)) = list.take count := by
  conv_lhs => rw [← take_append_drop count list, filter_append]
  have htake : (list.take count).filter
      (fun item => decide (rank item ≤ bound)) = list.take count := by
    rw [filter_eq_self]
    intro item hitem
    exact decide_eq_true (hcuts.below item hitem)
  have hdrop : (list.drop count).filter (fun item => decide (rank item ≤ bound)) = [] := by
    rw [filter_eq_nil_iff]
    intro item hitem
    have := hcuts.above item hitem
    simpa using this
  rw [htake, hdrop, append_nil]

lemma Cuts.filter_gt (hcuts : Cuts rank bound count list) :
    list.filter (fun item => decide (bound < rank item)) = list.drop count := by
  conv_lhs => rw [← take_append_drop count list, filter_append]
  have htake : (list.take count).filter (fun item => decide (bound < rank item)) = [] := by
    rw [filter_eq_nil_iff]
    intro item hitem
    have := hcuts.below item hitem
    simpa using this
  have hdrop : (list.drop count).filter
      (fun item => decide (bound < rank item)) = list.drop count := by
    rw [filter_eq_self]
    intro item hitem
    exact decide_eq_true (hcuts.above item hitem)
  rw [htake, hdrop, nil_append]

/-! ## Bisection -/

variable (rank) in
/-- Halves the range between `low` and `high` until it is empty. -/
def bisect (list : List A) (bound low high : ℕ) : ℕ :=
  if low < high then
    let middle := low + (high - low) / 2
    if list[middle]?.any fun item => decide (rank item ≤ bound) then
      bisect list bound (middle + 1) high
    else
      bisect list bound low middle
  else
    low
termination_by high - low
decreasing_by
  · omega
  · omega

variable (hsort : list.Pairwise (rank · ≤ rank ·))

include hsort

/-- In an ordered list everything up to an element of rank at most the bound is
below the bound. -/
lemma below_of_getElem (hpos : position < list.length) (hle : rank list[position] ≤ bound) :
    ∀ item ∈ list.take (position + 1), rank item ≤ bound := by
  intro item hitem
  obtain ⟨index, hindex, rfl⟩ := mem_take_iff_getElem.mp hitem
  rw [pairwise_iff_getElem] at hsort
  rcases Nat.lt_or_ge index position with hlt | hge
  · exact (hsort index position _ hpos hlt).trans hle
  · obtain rfl : index = position := by omega
    exact hle

lemma above_of_getElem (hposition : position < list.length) (hlt : bound < rank list[position]) :
    ∀ item ∈ list.drop position, bound < rank item := by
  intro item hitem
  obtain ⟨index, hindex, rfl⟩ := mem_drop_iff_getElem.mp hitem
  rw [pairwise_iff_getElem] at hsort
  rcases Nat.eq_zero_or_pos index with rfl | hpos
  · simpa using hlt
  · exact hlt.trans_le (hsort position (position + index) hposition _ (by omega))

lemma bisect_cuts (hle : low ≤ high) (hhigh : high ≤ list.length)
    (hbelow : ∀ item ∈ list.take low, rank item ≤ bound)
    (hgt : ∀ item ∈ list.drop high, bound < rank item) :
    Cuts rank bound (bisect rank list bound low high) list := by
  induction hwidth : high - low using Nat.strong_induction_on
    generalizing low high with
  | _ width ih =>
    rw [bisect]
    split
    next hlt =>
      have hmid : low + (high - low) / 2 < list.length := by omega
      dsimp only
      rw [getElem?_eq_getElem hmid, Option.any_some]
      split
      next hrank =>
        refine ih (high - (low + (high - low) / 2 + 1)) (by omega) (by omega) hhigh ?_ hgt rfl
        exact below_of_getElem hsort hmid (of_decide_eq_true hrank)
      next hrank =>
        refine ih (low + (high - low) / 2 - low) (by omega) (by omega) (by omega) hbelow ?_ rfl
        apply above_of_getElem hsort hmid
        simpa using hrank
    · have heq : low = high := by omega
      rw [← heq] at hgt
      exact ⟨hbelow, hgt⟩

lemma exists_cuts (bound) : ∃ count, Cuts rank bound count list :=
  ⟨_, bisect_cuts hsort (Nat.zero_le _) le_rfl (by simp) (by simp)⟩

/-- What lies below a bound is followed by what lies between it and a higher
one. -/
lemma filter_le_split (hle : low ≤ high) : list.filter (fun item => decide (rank item ≤ high)) =
      list.filter (fun item => decide (rank item ≤ low)) ++
        list.filter fun item => decide (low < rank item ∧ rank item ≤ high) := by
  obtain ⟨count, hcuts⟩ := exists_cuts hsort low
  have hbelow : (list.take count).filter
      (fun item => decide (rank item ≤ high)) = list.take count := by
    rw [filter_eq_self]
    intro item hitem
    exact decide_eq_true ((hcuts.below item hitem).trans hle)
  calc list.filter (fun item => decide (rank item ≤ high))
      = (list.take count ++ list.drop count).filter (fun item => decide (rank item ≤ high)) := by
        rw [take_append_drop]
    _ = list.take count ++ (list.drop count).filter (fun item => decide (rank item ≤ high)) := by
        rw [filter_append, hbelow]
    _ = _ := by
        rw [← hcuts.filter_le, ← hcuts.filter_gt, filter_filter]
        congr 1
        apply filter_congr
        intro item _
        rw [← Bool.decide_and, decide_eq_decide, and_comm]

end AgentDx.Cut
