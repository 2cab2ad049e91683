import AgentDx.Lib.OrderedMap

/-!
# Rows under distinct keys

A table of rows with distinct keys is stored as an ordered map from the key of a
row to a value computed from it, and indexed by an ordered set of what some rows
are sorted by.  Map and set are determined by which rows there are, so two ways
of building them from the same rows agree.
-/

namespace AgentDx.Keyed

open Std OrderedMap List

variable {A K V O : Type} [DecidableEq K]
variable (key : A → K)

/-- The rows under other keys. -/
def without (removed : K) (rows : List A) : List A :=
  rows.filter fun row => decide (key row ≠ removed)

variable {key} {rows others : List A} {removed : K} {row : A}

@[simp]
lemma mem_without : row ∈ without key removed rows ↔ row ∈ rows ∧ key row ≠ removed := by
  rw [without, mem_filter, decide_eq_true_eq]

lemma without_eq_self (hgone : ∀ row ∈ rows, key row ≠ removed) :
    without key removed rows = rows := by
  rw [without, filter_eq_self]
  intro row h
  exact decide_eq_true (hgone row h)

lemma nodup_without (huniq : (rows.map key).Nodup) (removed) :
    ((without key removed rows).map key).Nodup :=
  huniq.sublist (filter_sublist.map key)

lemma nodup_cons_without (huniq : (rows.map key).Nodup) (row) :
    ((row :: without key (key row) rows).map key).Nodup := by
  rw [map_cons, nodup_cons]
  refine ⟨?_, nodup_without huniq _⟩
  intro hm
  obtain ⟨other, ho, hky⟩ := mem_map.mp hm
  exact (mem_without.mp ho).2 hky

omit [DecidableEq K] in
lemma eq_of_key_eq (huniq : (rows.map key).Nodup)
    (hrow : row ∈ rows) (hother : other ∈ rows) (hkey : key row = key other) : row = other :=
  inj_on_of_nodup_map huniq hrow hother hkey

lemma perm_cons_without (huniq : (rows.map key).Nodup) (hrow : row ∈ rows) :
    rows.Perm (row :: without key (key row) rows) := by
  have hr := (nodup_cons_without huniq row).of_map
  apply (perm_ext_iff_of_nodup huniq.of_map hr).mpr
  intro other
  rw [mem_cons, mem_without]
  constructor
  · intro ho
    by_cases hky : key other = key row
    · exact .inl (eq_of_key_eq huniq ho hrow hky)
    · exact .inr ⟨ho, hky⟩
  · rintro (rfl | ⟨ho, _⟩)
    · exact hrow
    · exact ho

/-! ## Maps -/

section Maps

variable [Ord K] [TransOrd K] [LawfulEqOrd K] {value : A → V}
variable {map : ExtTreeMap K V}

variable (key value) in
/-- The map holds the value of each row under its key. -/
structure Stores (rows : List A) (map : ExtTreeMap K V) : Prop where
  nodup : (rows.map key).Nodup
  lookup : ∀ wanted found, map[wanted]? = some found ↔
    ∃ row ∈ rows, key row = wanted ∧ value row = found

omit [DecidableEq K] [LawfulEqOrd K] in
lemma stores_empty : Stores key value [] (∅ : ExtTreeMap K V) where
  nodup := nodup_nil
  lookup := by simp

variable (hstores : Stores key value rows map)

include hstores

omit [DecidableEq K] [LawfulEqOrd K] in
lemma Stores.get (hrow : row ∈ rows) : map[key row]? = some (value row) :=
  (hstores.lookup _ _).mpr ⟨row, hrow, rfl, rfl⟩

omit [DecidableEq K] [LawfulEqOrd K] in
lemma Stores.get_none (hnil : map[removed]? = none) : ∀ row ∈ rows, key row ≠ removed := by
  rintro row h rfl
  rw [hstores.get h] at hnil
  cases hnil

omit [DecidableEq K] [LawfulEqOrd K] in
lemma Stores.perm (hperm : rows.Perm others) : Stores key value others map where
  nodup := (hperm.map key).nodup hstores.nodup
  lookup wanted found := by
    rw [hstores.lookup]
    simp only [hperm.mem_iff]

lemma Stores.insert (row) : Stores key value (row :: without key (key row) rows)
      (map.insert (key row) (value row)) where
  nodup := nodup_cons_without hstores.nodup row
  lookup wanted found := by
    rw [ExtTreeMap.getElem?_insert]
    by_cases hky : key row = wanted
    · subst hky
      simp only [compare_self, if_true, Option.some.injEq]
      constructor
      · intro hfn
        exact ⟨row, mem_cons_self, rfl, hfn⟩
      · rintro ⟨other, ho, hky, hfn⟩
        rcases mem_cons.mp ho with rfl | ho
        · exact hfn
        · exact absurd hky (mem_without.mp ho).2
    · have hne : compare (key row) wanted ≠ .eq := by
        rwa [Ne, Std.compare_eq_iff_eq]
      rw [if_neg hne, hstores.lookup]
      constructor
      · rintro ⟨other, ho, rfl, hfn⟩
        exact ⟨other, mem_cons_of_mem _ (mem_without.mpr ⟨ho, Ne.symm hky⟩), rfl, hfn⟩
      · rintro ⟨other, ho, rfl, hfn⟩
        rcases mem_cons.mp ho with rfl | ho
        · exact absurd rfl hky
        · exact ⟨other, (mem_without.mp ho).1, rfl, hfn⟩

lemma Stores.erase (removed) : Stores key value (without key removed rows) (map.erase removed) where
  nodup := nodup_without hstores.nodup removed
  lookup wanted found := by
    rw [ExtTreeMap.getElem?_erase]
    by_cases hky : removed = wanted
    · subst hky
      simp only [compare_self, if_true, reduceCtorEq, false_iff]
      rintro ⟨other, ho, hky, _⟩
      exact (mem_without.mp ho).2 hky
    · have hne : compare removed wanted ≠ .eq := by
        rwa [Ne, Std.compare_eq_iff_eq]
      rw [if_neg hne, hstores.lookup]
      constructor
      · rintro ⟨other, ho, rfl, hfn⟩
        exact ⟨other, mem_without.mpr ⟨ho, Ne.symm hky⟩, rfl, hfn⟩
      · rintro ⟨other, ho, hr⟩
        exact ⟨other, (mem_without.mp ho).1, hr⟩

omit [DecidableEq K] in
lemma Stores.unique (hother : Stores key value others other)
    (heq : ∀ row, row ∈ rows ↔ row ∈ others) : map = other := by
  apply ExtTreeMap.ext_getElem?
  intro wanted
  apply Option.ext
  intro found
  rw [hstores.lookup, hother.lookup]
  simp only [heq]

end Maps

/-! ## Sorted sets -/

section Sets

variable [Ord O] [TransOrd O] [LawfulEqOrd O] {order : A → Option O}
variable {set : ExtTreeSet O}

variable (order) in
/-- The set holds what the rows are sorted by. -/
def Sorts (rows : List A) (set : ExtTreeSet O) : Prop :=
  ∀ item, item ∈ set ↔ ∃ row ∈ rows, order row = some item

omit [LawfulEqOrd O] in
lemma sorts_empty : Sorts order [] (∅ : ExtTreeSet O) := by
  intro item
  simp

variable (hsorts : Sorts order rows set)

include hsorts

omit [LawfulEqOrd O] in
lemma Sorts.perm (hperm : rows.Perm others) : Sorts order others set := by
  intro item
  rw [hsorts]
  simp only [hperm.mem_iff]

lemma Sorts.insert (horder : order row = some item) :
    Sorts order (row :: rows) (set.insert item) := by
  intro other
  rw [ExtTreeSet.mem_insert, Std.compare_eq_iff_eq, hsorts]
  simp only [mem_cons, exists_eq_or_imp, horder, Option.some.injEq]

omit [LawfulEqOrd O] in
lemma Sorts.skip (horder : order row = none) : Sorts order (row :: rows) set := by
  intro other
  rw [hsorts]
  simp [horder]

lemma Sorts.erase (huniq : (rows.map key).Nodup) (hrow : row ∈ rows)
    (horder : order row = some item)
    (hkeys : ∀ other ∈ rows, order other = some item → key other = key row) :
    Sorts order (without key (key row) rows) (set.erase item) := by
  intro wanted
  rw [ExtTreeSet.mem_erase, Ne, Std.compare_eq_iff_eq, hsorts]
  constructor
  · rintro ⟨hne, other, ho, hwn⟩
    refine ⟨other, mem_without.mpr ⟨ho, ?_⟩, hwn⟩
    intro hky
    obtain rfl := eq_of_key_eq huniq ho hrow hky
    rw [horder] at hwn
    exact hne (Option.some.inj hwn)
  · rintro ⟨other, ho, hwn⟩
    obtain ⟨hm, hky⟩ := mem_without.mp ho
    refine ⟨?_, other, hm, hwn⟩
    rintro rfl
    exact hky (hkeys other hm hwn)

omit [LawfulEqOrd O] in
lemma Sorts.erase_unsorted (huniq : (rows.map key).Nodup) (hrow : row ∈ rows)
    (horder : order row = none) : Sorts order (without key (key row) rows) set := by
  intro wanted
  rw [hsorts]
  constructor
  · rintro ⟨other, ho, hwn⟩
    refine ⟨other, mem_without.mpr ⟨ho, ?_⟩, hwn⟩
    intro hky
    obtain rfl := eq_of_key_eq huniq ho hrow hky
    rw [horder] at hwn
    cases hwn
  · rintro ⟨other, ho, hwn⟩
    exact ⟨other, (mem_without.mp ho).1, hwn⟩

omit [DecidableEq K] in
lemma Sorts.unique (hother : Sorts order others other)
    (heq : ∀ row, row ∈ rows ↔ row ∈ others) : set = other := by
  apply ExtTreeSet.ext_mem
  intro item
  rw [hsorts, hother]
  simp only [heq]

end Sets

/-! ## Sums -/

section Sums

variable (weight : A → ℕ)

lemma sum_without (huniq : (rows.map key).Nodup) (hrow : row ∈ rows) :
    (rows.map weight).sum = weight row + ((without key (key row) rows).map weight).sum := by
  rw [((perm_cons_without huniq hrow).map weight).sum_eq, map_cons, sum_cons]

omit [DecidableEq K] in
lemma sum_unique (huniq : (rows.map key).Nodup) (hothers : (others.map key).Nodup)
    (heq : ∀ row, row ∈ rows ↔ row ∈ others) : (rows.map weight).sum = (others.map weight).sum := by
  have h := (perm_ext_iff_of_nodup huniq.of_map hothers.of_map).mpr heq
  exact (h.map weight).sum_eq

omit [DecidableEq K] in
lemma sum_le_of_subperm (hsub : rows.Subperm others) :
    (rows.map weight).sum ≤ (others.map weight).sum := by
  obtain ⟨listed, hpr, hsu⟩ := hsub
  rw [← (hpr.map weight).sum_eq]
  exact (hsu.map weight).sum_le_sum (by simp)

end Sums

end AgentDx.Keyed
