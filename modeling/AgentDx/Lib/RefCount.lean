import AgentDx.Lib.OrderedMap

/-!
# Reference-counted keys

Several holders may hold the same key.  A map from keys to counts is kept by
`retain` when a holder takes a key and by `release` when it gives the key back;
a key leaves the map with its last holder.  The counts are those of the list of
all keys held, and a charge per registered key changes only when a key enters or
leaves.
-/

namespace AgentDx.RefCount

open Std OrderedMap List Option ExtTreeMap

variable {K : Type} [Ord K] [TransOrd K]

def retain (counts : ExtTreeMap K ℕ) (key : K) : ExtTreeMap K ℕ :=
  counts.insert key (counts[key]?.getD 0 + 1)

/-- The counts without one holder of the key, and whether it was the last. -/
def release (counts : ExtTreeMap K ℕ) (key : K) : ExtTreeMap K ℕ × Bool :=
  match counts[key]? with
  | none => (counts, false)
  | some count =>
    if count - 1 = 0 then (counts.erase key, true)
    else (counts.insert key (count - 1), false)

section Holders

variable [DecidableEq K]

/-- The map counts the keys of a list. -/
def Counts (counts : ExtTreeMap K ℕ) (held : List K) : Prop :=
  ∀ key, counts[key]? = if held.count key = 0 then none else some (held.count key)

variable {counts : ExtTreeMap K ℕ} {held : List K} {key : K}

lemma counts_empty : Counts (∅ : ExtTreeMap K ℕ) [] := by
  intro key
  simp

variable (hnums : Counts counts held)

include hnums

lemma Counts.mem_iff : key ∈ counts ↔ key ∈ held := by
  rw [mem_iff_isSome_getElem?, hnums key, ← count_pos_iff]
  split <;> simp only [isSome_none, isSome_some] <;> grind

lemma Counts.perm (hperm : held.Perm other) : Counts counts other := by
  intro key
  rw [← hperm.count_eq]
  exact hnums key

variable [LawfulEqOrd K]

lemma Counts.retain (key) : Counts (retain counts key) (key :: held) := by
  intro other
  have hold : counts[key]?.getD 0 = held.count key := by
    rw [hnums key]
    split <;> simp_all
  rw [RefCount.retain, ExtTreeMap.getElem?_insert]
  by_cases heq : key = other
  · subst heq
    simp [hold]
  · have hne : compare key other ≠ .eq := by rwa [Ne, Std.compare_eq_iff_eq]
    rw [if_neg hne, List.count_cons_of_ne heq]
    exact hnums other

lemma Counts.release (hkey : key ∈ held) : Counts (release counts key).1 (held.erase key) := by
  intro other
  have hpos : held.count key ≠ 0 := (count_pos_iff.mpr hkey).ne'
  have hnum : counts[key]? = some (held.count key) := by
    rw [hnums key, if_neg hpos]
  rw [RefCount.release, hnum]
  by_cases heq : key = other
  · subst heq
    simp only [count_erase_self]
    by_cases hlast : held.count key - 1 = 0
    · simp [hlast]
    · simp [hlast]
  · rw [count_erase_of_ne (Ne.symm heq), ← hnums other]
    by_cases hlast : held.count key - 1 = 0
    · simp [hlast, getElem?_erase, heq]
    · simp [hlast, ExtTreeMap.getElem?_insert, heq]

lemma Counts.retain_all (keys : List K) :
    Counts (keys.foldl RefCount.retain counts) (keys ++ held) := by
  induction keys generalizing counts held with
  | nil => exact hnums
  | cons key keys ih =>
    have hrest := ih (hnums.retain key)
    exact hrest.perm perm_middle

end Holders

/-! ## Charges -/

section Charges

variable [LawfulEqOrd K] {counts : ExtTreeMap K ℕ} {key : K}

/-- The charge of all registered keys. -/
def charged (weight : K → ℕ) (counts : ExtTreeMap K ℕ) : ℕ := total (fun key _ => weight key) counts

lemma charged_retain (weight) : charged weight (retain counts key) =
      charged weight counts + if key ∈ counts then 0 else weight key := by
  have hadd := total_insert (fun key _ => weight key) counts key (counts[key]?.getD 0 + 1)
  have hle := share_le_total (fun key _ => weight key) counts key
  rw [charged, charged, retain]
  by_cases hkey : key ∈ counts
  · obtain ⟨count, hnum⟩ := isSome_iff_exists.mp (mem_iff_isSome_getElem?.mp hkey)
    have hshare : share (fun key _ => weight key) counts key = weight key := by
      rw [share, hnum, elim_some]
    rw [if_pos hkey]
    omega
  · have hnil : counts[key]? = none := getElem?_neg counts key hkey
    have hshare : share (fun key _ => weight key) counts key = 0 := by
      rw [share, hnil, elim_none]
    rw [if_neg hkey]
    omega

lemma charged_release (weight) :
    charged weight (release counts key).1 + (if (release counts key).2 then weight key else 0) =
      charged weight counts := by
  rw [release]
  cases hnum : counts[key]? with
  | none => rfl
  | some count =>
    have hshare : share (fun key _ => weight key) counts key = weight key := by
      rw [share, hnum, elim_some]
    by_cases hlast : count - 1 = 0
    · have herase := total_erase (fun key _ => weight key) counts key
      simpa only [hlast, if_true, charged, ← hshare] using herase
    · have hadd := total_insert (fun key _ => weight key) counts key (count - 1)
      simp only [hlast, if_false, charged, Bool.false_eq_true]
      omega

/-- Retaining distinct keys adds the charges of those not yet registered. -/
lemma charged_retain_all [DecidableEq K] (weight) {keys : List K} (huniq : keys.Nodup) :
    charged weight (keys.foldl retain counts) = charged weight counts +
      ((keys.filter fun key => decide (key ∉ counts)).map weight).sum := by
  induction keys generalizing counts with
  | nil => simp
  | cons key keys ih =>
    rw [nodup_cons] at huniq
    have hfilter : (keys.filter fun other => decide (other ∉ retain counts key)) =
        keys.filter fun other => decide (other ∉ counts) := by
      apply filter_congr
      intro other hother
      have hne : key ≠ other := fun heq => huniq.1 (heq ▸ hother)
      simp [retain, mem_insert, hne]
    rw [foldl_cons, ih huniq.2, hfilter, charged_retain, filter_cons]
    by_cases hkey : key ∈ counts
    · simp [hkey]
    · simp [hkey]
      omega

omit [LawfulEqOrd K] in
lemma charged_one : charged (fun _ => 1) counts = counts.size := total_one counts

lemma size_retain_all [DecidableEq K] {keys : List K} (huniq : keys.Nodup) :
    (keys.foldl retain counts).size = counts.size +
      (keys.filter fun key => decide (key ∉ counts)).length := by
  have hchg : charged (fun _ => 1) (keys.foldl retain counts) = _ := charged_retain_all _ huniq
  rwa [charged_one, charged_one, map_const', sum_replicate, smul_eq_mul, mul_one] at hchg

lemma size_release_le : (release counts key).1.size ≤ counts.size := by
  have hchg : charged (fun _ => 1) (release counts key).1 + _ =
      charged (fun _ => 1) counts := charged_release _
  rw [charged_one, charged_one] at hchg
  omega

end Charges

end AgentDx.RefCount
