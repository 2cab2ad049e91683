import Mathlib

/-!
# Maps from keys to sets

A map whose sets are created by their first item and removed with their last.
What it lists under a key is all that a caller sees.
-/

namespace AgentDx.Multimap

open Std

variable {K A : Type} [Ord K] [TransOrd K] [LawfulEqOrd K]
variable [Ord A] [TransOrd A] [LawfulEqOrd A]

def add (map : ExtTreeMap K (ExtTreeSet A)) (key : K) (item : A) : ExtTreeMap K (ExtTreeSet A) :=
  map.alter key fun items => some ((items.getD ∅).insert item)

def drop (map : ExtTreeMap K (ExtTreeSet A)) (key : K) (item : A) : ExtTreeMap K (ExtTreeSet A) :=
  map.alter key fun items => items.bind fun items =>
    let left := items.erase item
    if left.isEmpty then none else some left

/-- The item is listed under the key. -/
def Lists (map : ExtTreeMap K (ExtTreeSet A)) (key : K) (item : A) : Prop :=
  ∃ items, map[key]? = some items ∧ item ∈ items

variable {map : ExtTreeMap K (ExtTreeSet A)} {keys : List K} {key other : K}
  {item listed : A}

lemma lists_add : Lists (add map key item) other listed ↔
      Lists map other listed ∨ listed = item ∧ other = key := by
  by_cases hkey : key = other
  · subst hkey
    cases hitems : map[key]? <;>
      simp [Lists, add, hitems, ExtTreeSet.mem_insert, or_comm, @eq_comm _ item]
  · simp [Lists, add, ExtTreeMap.getElem?_alter, hkey, Ne.symm hkey]

lemma lists_drop : Lists (drop map key item) other listed ↔
      Lists map other listed ∧ ¬(listed = item ∧ other = key) := by
  by_cases hkey : key = other
  · subst hkey
    cases hitems : map[key]? with
    | none => simp [Lists, drop, hitems]
    | some items =>
      have hleft : listed ∈ items.erase item ↔ listed ≠ item ∧ listed ∈ items := by
        simp [ExtTreeSet.mem_erase, @eq_comm _ item]
      simp only [Lists, drop, ExtTreeMap.getElem?_alter_self, hitems,
        Option.bind_some, Option.some.injEq, exists_eq_left', and_true]
      cases hnil : (items.erase item).isEmpty with
      | true =>
        rw [ExtTreeSet.isEmpty_iff.mp hnil] at hleft
        simpa [and_comm] using hleft
      | false => simpa [and_comm] using hleft
  · simp [Lists, drop, ExtTreeMap.getElem?_alter, hkey, Ne.symm hkey]

lemma lists_foldl_add : Lists (keys.foldl (add · · item) map) other listed ↔
      Lists map other listed ∨ listed = item ∧ other ∈ keys := by
  induction keys generalizing map with
  | nil => simp
  | cons key keys ih =>
    rw [List.foldl_cons, ih, lists_add, List.mem_cons, or_assoc, ← and_or_left]

lemma lists_foldl_drop : Lists (keys.foldl (drop · · item) map) other listed ↔
      Lists map other listed ∧ ¬(listed = item ∧ other ∈ keys) := by
  induction keys generalizing map with
  | nil => simp
  | cons key keys ih =>
    rw [List.foldl_cons, ih, lists_drop, List.mem_cons, and_or_left, not_or, and_assoc]

lemma filterMap_toList {V : Type} (map : ExtTreeMap K V) (ids : ExtTreeSet K) :
    ids.toList.filterMap (map[·]?) = (map.toList.filter (·.1 ∈ ids)).map Prod.snd := by
  have hents : ids.toList.filterMap (fun id => map[id]?.map (Prod.mk id)) =
      map.toList.filter (·.1 ∈ ids) := by
    have hleft : (ids.toList.filterMap fun id => map[id]?.map (Prod.mk id)).Pairwise
        fun left right => compare left.1 right.1 = .lt := by
      refine ExtTreeSet.ordered_toList.filterMap _ ?_
      grind
    have hright : (map.toList.filter (·.1 ∈ ids)).Pairwise
        fun left right => compare left.1 right.1 = .lt :=
      ExtTreeMap.ordered_keys_toList.filter _
    have hirrefl : ∀ {entries : List (K × V)},
        entries.Pairwise (fun left right => compare left.1 right.1 = .lt) → entries.Nodup :=
      fun h => h.imp fun hlt heq => by simp [heq] at hlt
    refine List.Perm.eq_of_pairwise ?_ hleft hright ((List.perm_ext_iff_of_nodup (hirrefl hleft)
      (hirrefl hright)).mpr ?_)
    · intro left right _ _ hlt hgt
      simp [OrientedCmp.gt_of_lt hlt] at hgt
    · simp [ExtTreeMap.mem_toList_iff_getElem?_eq_some, and_comm]
  rw [← hents, List.map_filterMap]
  simp

end AgentDx.Multimap
