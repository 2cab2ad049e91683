import Mathlib

/-!
# Tables

A table is a partial function that is changed at one key at a time.
-/

namespace AgentDx.Table

open Function

variable {K V : Type} [DecidableEq K] {table : K → Option V} {id key : K} {value : V}

lemma forall_update {P : K → V → Prop} (htable : ∀ key v, table key = some v → P key v)
    (hval : P id value) (key v) (hget : update table id (some value) key = some v) : P key v := by
  by_cases hkey : key = id
  · subst hkey
    rw [update_self] at hget
    exact Option.some.inj hget ▸ hval
  · rw [update_of_ne hkey] at hget
    exact htable key v hget

lemma of_update_none (hval : update table id none key = some value) : table key = some value := by
  by_cases hkey : key = id
  · simp [hkey] at hval
  · simpa [hkey] using hval

end AgentDx.Table
