import Mathlib

/-!
# Outcomes of fallible computations

A computation that may fail is described by what holds of its value and by what
must have been the case when it fails.
-/

namespace AgentDx.Outcome

variable {E A B : Type} {Good : A → Prop} {Bad : Prop}

/-- `Ends x Good Bad`: a value of `x` is good, and `x` fails only if `Bad`. -/
def Ends (computation : Except E A) (Good : A → Prop) (Bad : Prop) : Prop :=
  match computation with
  | .ok value => Good value
  | .error _ => Bad

lemma Ends.bind {After} (hone : Ends first Good Bad)
    (hnext : ∀ value, Good value → Ends (next value) After Bad) :
    Ends (first >>= next) After Bad := by
  cases first with
  | error error => exact hone
  | ok value => exact hnext value hone

lemma Ends.imp {Worse : Prop} (hends : Ends computation Good Bad)
    (hbad : Bad → Worse) : Ends computation Good Worse := by
  cases computation with
  | error error => exact hbad hends
  | ok value => exact hends

/-- A loop whose steps append pieces appends the pieces of all its items. -/
lemma Ends.collect {items : List A}
    (hstep : ∀ out, ∀ item ∈ items, Ends (step out item) (· = out ++ pieces item) Bad) :
    Ends (items.foldlM step out) (· = out ++ items.flatMap pieces) Bad := by
  induction items generalizing out with
  | nil => exact (List.append_nil out).symm
  | cons item items ih =>
    rw [List.foldlM_cons, List.flatMap_cons, ← List.append_assoc]
    refine (hstep out item List.mem_cons_self).bind fun next hnext => ?_
    subst hnext
    exact ih fun out other hother => hstep out other (List.mem_cons_of_mem _ hother)

end AgentDx.Outcome
