import Mathlib

/-!
# Totals over ordered maps

A total over an ordered map is the sum of a weight over its entries.  Programs
keep such totals incrementally: an insertion takes off what the key weighed
before and adds its new weight, a removal only takes off.  The lemmas here say
that this is exactly how the total itself changes.
-/

namespace AgentDx.OrderedMap

open Std List ExtTreeMap

variable {K V : Type} [Ord K] [TransOrd K] [LawfulEqOrd K]

/-- The sum of a weight over all entries. -/
def total (weight : K → V → ℕ) (map : ExtTreeMap K V) : ℕ :=
  (map.toList.map fun entry => weight entry.1 entry.2).sum

/-- What a key currently contributes to a total. -/
def share (weight : K → V → ℕ) (map : ExtTreeMap K V) (key : K) : ℕ := map[key]?.elim 0 (weight key)

lemma nodup_toList (map : ExtTreeMap K V) : map.toList.Nodup := by
  refine List.Pairwise.imp ?_ (distinct_keys_toList (t := map))
  rintro left right hdist rfl
  exact hdist (compare_self)

lemma perm_toList_of_lookup {map : ExtTreeMap K V}
    (huniq : entries.Nodup) (hmem : ∀ key value, (key, value) ∈ entries ↔ map[key]? = some value) :
    map.toList.Perm entries := by
  rw [perm_ext_iff_of_nodup (nodup_toList map) huniq]
  rintro ⟨key, value⟩
  rw [mem_toList_iff_getElem?_eq_some, hmem]

lemma toList_insert_perm (map : ExtTreeMap K V) (key value) :
    (map.insert key value).toList.Perm ((key, value) :: (map.erase key).toList) := by
  apply perm_toList_of_lookup
  · rw [nodup_cons]
    refine ⟨?_, nodup_toList _⟩
    rw [mem_toList_iff_getElem?_eq_some]
    simp
  · intro other otherValue
    rw [mem_cons, mem_toList_iff_getElem?_eq_some,
      ExtTreeMap.getElem?_insert, ExtTreeMap.getElem?_erase]
    by_cases hkey : key = other
    · subst hkey
      simp [eq_comm]
    · simp [hkey, Ne.symm hkey]

lemma toList_erase_perm {map : ExtTreeMap K V} (hval : map[key]? = some value) :
    map.toList.Perm ((key, value) :: (map.erase key).toList) := by
  apply perm_toList_of_lookup
  · rw [nodup_cons]
    refine ⟨?_, nodup_toList _⟩
    rw [mem_toList_iff_getElem?_eq_some]
    simp
  · intro other otherValue
    rw [mem_cons, mem_toList_iff_getElem?_eq_some, getElem?_erase]
    by_cases hkey : key = other
    · subst hkey
      simp [hval, eq_comm]
    · simp [hkey, Ne.symm hkey]

omit [LawfulEqOrd K] in
@[simp]
lemma total_empty (weight) : total weight (∅ : ExtTreeMap K V) = 0 := rfl

lemma total_erase (weight) (map : ExtTreeMap K V) (key) :
    total weight (map.erase key) + share weight map key = total weight map := by
  cases hval : map[key]? with
  | none =>
    have herase : map.erase key = map := by
      apply ExtTreeMap.ext_getElem?
      intro other
      rw [getElem?_erase]
      by_cases hkey : key = other
      · subst hkey
        simp [hval]
      · simp [hkey]
    simp [share, hval, herase]
  | some value =>
    have hperm := (toList_erase_perm hval).map fun entry => weight entry.1 entry.2
    simp only [total, hperm.sum_eq, map_cons, sum_cons, share, hval, Option.elim_some]
    omega

lemma total_insert (weight) (map : ExtTreeMap K V) (key value) :
    total weight (map.insert key value) + share weight map key =
      total weight map + weight key value := by
  have herase := total_erase weight map key
  have hperm := (toList_insert_perm map key value).map fun entry => weight entry.1 entry.2
  have hadd : total weight (map.insert key value) =
      weight key value + total weight (map.erase key) := by
    simp only [total, hperm.sum_eq, map_cons, sum_cons]
  omega

lemma share_le_total (weight : K → V → ℕ) (map : ExtTreeMap K V) (key : K) :
    share weight map key ≤ total weight map := by
  have herase := total_erase weight map key
  omega

lemma insert_self {map : ExtTreeMap K V}
    (hval : map[key]? = some value) : map.insert key value = map := by
  apply ExtTreeMap.ext_getElem?
  intro other
  rw [ExtTreeMap.getElem?_insert]
  by_cases hkey : key = other
  · subst hkey
    simp [hval]
  · simp [hkey]

lemma getElem?_insert_cases {map : ExtTreeMap K V}
    (hget : (map.insert key value)[other]? = some found) :
    key = other ∧ value = found ∨ map[other]? = some found := by
  rw [ExtTreeMap.getElem?_insert] at hget
  split at hget
  next hkey =>
    exact .inl ⟨LawfulEqCmp.eq_of_compare hkey, Option.some.inj hget⟩
  · exact .inr hget

omit [LawfulEqOrd K] in
lemma getElem?_of_erase {map : ExtTreeMap K V} {key other : K}
    (hget : (map.erase key)[other]? = some found) : map[other]? = some found := by
  rw [getElem?_erase] at hget
  split at hget
  · cases hget
  · exact hget

lemma getElem?_insert_all [DecidableEq K] (map : ExtTreeMap K V) (keys : List K) (value wanted) :
    (keys.foldl (fun map key => map.insert key value) map)[wanted]? =
      if wanted ∈ keys then some value else map[wanted]? := by
  induction keys generalizing map with
  | nil => simp
  | cons key keys ih =>
    rw [List.foldl_cons, ih, ExtTreeMap.getElem?_insert]
    by_cases hkeys : wanted ∈ keys
    · rw [if_pos hkeys, if_pos (mem_cons_of_mem _ hkeys)]
    · by_cases hkey : key = wanted
      · simp [hkey, hkeys]
      · simp [hkey, Ne.symm hkey, hkeys]

omit [LawfulEqOrd K] in
lemma values_eq_map_toList (map : ExtTreeMap K V) : map.values = map.toList.map Prod.snd := by
  obtain ⟨inner⟩ := map
  induction inner using ExtDTreeMap.inductionOn with
  | mk tree =>
    show tree.inner.values = (DTreeMap.Internal.Impl.Const.toList tree.inner).map Prod.snd
    rw [DTreeMap.Internal.Impl.values_eq_map_snd,
      DTreeMap.Internal.Impl.Const.toList_eq_toListModel_map]
    simp

lemma mem_values {map : ExtTreeMap K V} :
    value ∈ map.values ↔ ∃ key : K, map[key]? = some value := by
  rw [values_eq_map_toList]
  constructor
  · intro hmem
    obtain ⟨⟨key, stored⟩, hrow, rfl⟩ := mem_map.mp hmem
    exact ⟨key, mem_toList_iff_getElem?_eq_some.mp hrow⟩
  · rintro ⟨key, hkey⟩
    exact mem_map.mpr ⟨(key, value), mem_toList_iff_getElem?_eq_some.mpr hkey, rfl⟩

omit [LawfulEqOrd K] in
lemma total_one (map : ExtTreeMap K V) : total (fun _ _ => 1) map = map.size := by
  rw [total, map_const', sum_replicate, smul_eq_mul, mul_one, length_toList]

lemma size_eq_of_mem_iff {W : Type} {left : ExtTreeMap K V}
    {right : ExtTreeMap K W} (hmem : ∀ key, key ∈ left ↔ key ∈ right) : left.size = right.size := by
  rw [← length_keys, ← length_keys]
  apply List.Perm.length_eq
  apply (perm_ext_iff_of_nodup nodup_keys nodup_keys).mpr
  intro key
  rw [ExtTreeMap.mem_keys, ExtTreeMap.mem_keys, hmem]

/-! ## Sets -/

/-- The sum of a weight over a set. -/
def setTotal (weight : K → ℕ) (set : ExtTreeSet K) : ℕ := (set.toList.map weight).sum

lemma nodup_setToList (set : ExtTreeSet K) : set.toList.Nodup := by
  refine List.Pairwise.imp ?_ (ExtTreeSet.distinct_toList (t := set))
  rintro left right hdist rfl
  exact hdist (compare_self)

lemma setTotal_insert (weight : K → ℕ) {set : ExtTreeSet K} (hkey : key ∉ set) :
    setTotal weight (set.insert key) = setTotal weight set + weight key := by
  have hperm : (set.insert key).toList.Perm (key :: set.toList) := by
    apply (perm_ext_iff_of_nodup (nodup_setToList _) _).mpr
    · intro other
      rw [mem_cons, ExtTreeSet.mem_toList, ExtTreeSet.mem_toList,
        ExtTreeSet.mem_insert, Std.compare_eq_iff_eq, eq_comm]
    · rw [nodup_cons, ExtTreeSet.mem_toList]
      exact ⟨hkey, nodup_setToList set⟩
  rw [setTotal, (hperm.map weight).sum_eq, map_cons, sum_cons, Nat.add_comm, setTotal]

lemma setTotal_erase (weight : K → ℕ) {set : ExtTreeSet K} (hkey : key ∈ set) :
    setTotal weight (set.erase key) + weight key = setTotal weight set := by
  have hadd : (set.erase key).insert key = set := by
    apply ExtTreeSet.ext_mem
    intro other
    rw [ExtTreeSet.mem_insert, ExtTreeSet.mem_erase, Ne, Std.compare_eq_iff_eq]
    by_cases heq : key = other
    · simpa [heq] using heq ▸ hkey
    · simp [heq]
  have hgone : key ∉ set.erase key := by simp
  rw [← setTotal_insert weight hgone, hadd]

lemma mem_insert_all {set : ExtTreeSet K} {keys : List K} :
    key ∈ keys.foldl ExtTreeSet.insert set ↔ key ∈ keys ∨ key ∈ set := by
  induction keys generalizing set with
  | nil => simp
  | cons first keys ih =>
    rw [foldl_cons, ih, ExtTreeSet.mem_insert, Std.compare_eq_iff_eq, mem_cons]
    tauto

lemma setTotal_insert_all (weight) {set} {keys : List K} (huniq : keys.Nodup)
    (hgone : ∀ key ∈ keys, key ∉ set) : setTotal weight (keys.foldl ExtTreeSet.insert set) =
      setTotal weight set + (keys.map weight).sum := by
  induction keys generalizing set with
  | nil => simp
  | cons key keys ih =>
    obtain ⟨hkey, hrest⟩ := forall_mem_cons.mp hgone
    rw [nodup_cons] at huniq
    have hkeys : ∀ other ∈ keys, other ∉ set.insert key := by
      intro other hother
      rw [ExtTreeSet.mem_insert, Std.compare_eq_iff_eq]
      rintro (rfl | hmem)
      · exact huniq.1 hother
      · exact hrest other hother hmem
    rw [foldl_cons, ih huniq.2 hkeys, setTotal_insert weight hkey, map_cons, sum_cons,
      Nat.add_assoc]

omit [LawfulEqOrd K] in
lemma setTotal_one (set : ExtTreeSet K) : setTotal (fun _ => 1) set = set.size := by
  rw [setTotal, map_const', sum_replicate, smul_eq_mul, mul_one, ExtTreeSet.length_toList]

lemma size_insert_all {set : ExtTreeSet K} {keys : List K}
    (huniq : keys.Nodup) (hgone : ∀ key ∈ keys, key ∉ set) :
    (keys.foldl ExtTreeSet.insert set).size = set.size + keys.length := by
  have htotal := setTotal_insert_all (fun _ => 1) huniq hgone
  rwa [setTotal_one, setTotal_one, map_const', sum_replicate, smul_eq_mul, mul_one] at htotal

end AgentDx.OrderedMap
