import Mathlib

/-!
# Checked arithmetic on 64-bit counters

Counters are naturals.  Where a program adds or subtracts with an overflow
check, the checked operation returns `none` instead of wrapping; where it
saturates, the result stops at the largest word; where it does neither, the
result is taken modulo the number of words.
-/

namespace AgentDx.Word

/-- The number of values of a 64-bit word. -/
def size : ℕ := 2 ^ 64

def checkedAdd (left right : ℕ) : Option ℕ :=
  if left + right < size then some (left + right) else none

def checkedSub (left right : ℕ) : Option ℕ :=
  if right ≤ left then some (left - right) else none

def checkedMul (left right : ℕ) : Option ℕ :=
  if left * right < size then some (left * right) else none

def saturatingAdd (left right : ℕ) : ℕ := min (left + right) (size - 1)

def saturatingMul (left right : ℕ) : ℕ := min (left * right) (size - 1)

def wrappingSub (left right : ℕ) : ℕ :=
  if right ≤ left then left - right else left + size - right

lemma wrappingSub_of_le (hle : right ≤ left) : wrappingSub left right = left - right :=
  if_pos hle

lemma saturatingAdd_lt (left right) : saturatingAdd left right < size :=
  lt_of_le_of_lt (min_le_right _ _) (by simp [size])

@[simp]
lemma checkedAdd_eq_some :
    checkedAdd left right = some value ↔ left + right < size ∧ left + right = value := by
  unfold checkedAdd
  split <;> simp_all

@[simp]
lemma checkedSub_eq_some :
    checkedSub left right = some value ↔ right ≤ left ∧ left - right = value := by
  unfold checkedSub
  split <;> simp_all

@[simp]
lemma checkedMul_eq_some :
    checkedMul left right = some value ↔ left * right < size ∧ left * right = value := by
  unfold checkedMul
  split <;> simp_all

/-- Replacing one summand of a checked total: the old amount is taken off
before the new one is added. -/
def checkedReplace (total old new : ℕ) : Option ℕ :=
  (checkedSub total old).bind fun rest => checkedAdd rest new

@[simp]
lemma checkedReplace_eq_some : checkedReplace total old new = some value ↔
      old ≤ total ∧ total - old + new < size ∧ total - old + new = value := by
  simp [checkedReplace, Option.bind_eq_some_iff]

end AgentDx.Word
