import Mathlib

/-!
# Text that is cut at a mark

A list that holds a mark is cut in one way only at its last mark and at its first
one, which is what makes concatenated names readable again.
-/

namespace AgentDx.Split

open List

variable {A : Type*} {mark : A} {left other right rest : List A}

lemma append_last_inj (hright : mark ∉ right) (hrest : mark ∉ rest) :
    left ++ mark :: right = other ++ mark :: rest ↔ left = other ∧ right = rest := by
  constructor
  · intro heq
    rcases append_eq_append_iff.mp heq with ⟨more, rfl, hmr⟩ | ⟨more, rfl, hmr⟩
    · cases more with
      | nil => simpa using hmr
      | cons head tail =>
        obtain ⟨rfl, rfl⟩ := cons_eq_cons.mp hmr
        simp at hright
    · cases more with
      | nil => simpa [eq_comm] using hmr
      | cons head tail =>
        obtain ⟨rfl, rfl⟩ := cons_eq_cons.mp hmr
        simp at hrest
  · rintro ⟨rfl, rfl⟩
    rfl

lemma append_first_inj (hleft : mark ∉ left) (hother : mark ∉ other) :
    left ++ mark :: right = other ++ mark :: rest ↔ left = other ∧ right = rest := by
  rw [← reverse_inj]
  simp only [reverse_append, reverse_cons, append_assoc, singleton_append]
  rw [append_last_inj (by simpa using hleft) (by simpa using hother), reverse_inj, reverse_inj, and_comm]

end AgentDx.Split
