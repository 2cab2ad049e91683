import Mathlib

/-!
# Runs of a labelled transition system

A run is a sequence of labelled steps.  An invariant of every step is an
invariant of every run, and a function that reproduces each step from its label
reproduces the run from its list of labels.
-/

namespace AgentDx.Transition

open List

variable {S L : Type}

/-- `Run step start labels finish`: steps with these labels, oldest first, lead
from `start` to `finish`. -/
inductive Run (step : S → L → S → Prop) : S → List L → S → Prop where
  | refl (start) : Run step start [] start
  | snoc {start middle finish labels label} (run : Run step start labels middle)
      (last : step middle label finish) : Run step start (labels ++ [label]) finish

variable {step : S → L → S → Prop} {start finish : S} {labels : List L}

lemma Run.invariant {Inv : S → Prop}
    (hstep : ∀ {before label after}, Inv before → step before label after → Inv after)
    (hrun : Run step start labels finish) (hstart : Inv start) : Inv finish := by
  induction hrun with
  | refl => exact hstart
  | snoc _ last ih => exact hstep ih last

lemma Run.append (hone : Run step start labels middle) (htwo : Run step middle more finish) :
    Run step start (labels ++ more) finish := by
  induction htwo with
  | refl => simpa using hone
  | snoc _ last ih =>
    rw [← append_assoc]
    exact .snoc ih last

lemma Run.cons (hstep : step start label middle) (hrun : Run step middle labels finish) :
    Run step start (label :: labels) finish :=
  (Run.snoc (.refl start) hstep).append hrun

lemma Run.of_nil (hrun : Run step start [] finish) : start = finish := by
  generalize hnl : [] = empty at hrun
  cases hrun with
  | refl => rfl
  | snoc => simp at hnl

lemma Run.of_snoc (hrun : Run step start (labels ++ [label]) finish) :
    ∃ middle, Run step start labels middle ∧ step middle label finish := by
  generalize hall : labels ++ [label] = all at hrun
  cases hrun with
  | refl => simp at hall
  | snoc run last =>
    obtain ⟨rfl, htag⟩ := append_inj' hall rfl
    obtain rfl : label = _ := by simpa using htag
    exact ⟨_, run, last⟩

lemma Run.of_append (hrun : Run step start (labels ++ more) finish) :
    ∃ middle, Run step start labels middle ∧ Run step middle more finish := by
  induction more using List.reverseRecOn generalizing finish with
  | nil => exact ⟨finish, by simpa using hrun, .refl finish⟩
  | append_singleton more label ih =>
    rw [← append_assoc] at hrun
    obtain ⟨before, hpre, hlast⟩ := hrun.of_snoc
    obtain ⟨middle, hone, htwo⟩ := ih hpre
    exact ⟨middle, hone, .snoc htwo hlast⟩

lemma Run.of_middle (hrun : Run step start (earlier ++ label :: later) finish) :
    ∃ before after, Run step start earlier before ∧
      step before label after ∧ Run step after later finish := by
  rw [← singleton_append, ← append_assoc] at hrun
  obtain ⟨after, hone, hnext⟩ := hrun.of_append
  obtain ⟨before, hpast, hstep⟩ := hone.of_snoc
  exact ⟨before, after, hpast, hstep, hnext⟩

lemma Run.forall_label {Inv : S → Prop} {P : L → Prop}
    (hstep : ∀ {before label after}, Inv before → step before label after → Inv after ∧ P label)
    (hrun : Run step start labels finish) (hstart : Inv start) : ∀ label ∈ labels, P label := by
  have hall : Inv finish ∧ ∀ label ∈ labels, P label := by
    induction hrun with
    | refl => simpa using hstart
    | snoc _ last ih =>
      obtain ⟨hinv, hlast⟩ := hstep ih.1 last
      refine ⟨hinv, fun label htag => ?_⟩
      rcases mem_append.mp htag with htag | htag
      · exact ih.2 label htag
      · rwa [mem_singleton.mp htag]
  exact hall.2

/-- An invariant that holds at the start may be assumed of every state a step
of the run leaves. -/
lemma Run.replay {E : Type} {Inv : S → Prop} {replay : S → L → Except E S}
    (hstep : ∀ {before label after}, Inv before → step before label after → Inv after)
    (hredo : ∀ {before label after}, Inv before → step before label after →
      replay before label = .ok after) (hrun : Run step start labels finish) (hstart : Inv start) :
    labels.foldlM replay start = .ok finish := by
  induction hrun with
  | refl => rfl
  | snoc run last ih =>
    rw [foldlM_append, ih]
    have hlast := hredo (run.invariant hstep hstart) last
    simp [bind, Except.bind, hlast, pure, Except.pure]

lemma foldlM_invariant {E : Type} (Inv : S → Prop) {apply : S → L → Except E S}
    (happ : ∀ {before label after}, label ∈ labels → Inv before →
      apply before label = .ok after → Inv after)
    (hfold : labels.foldlM apply start = .ok finish) (hstart : Inv start) : Inv finish := by
  induction labels generalizing start with
  | nil =>
    cases hfold
    exact hstart
  | cons label labels ih =>
    rw [foldlM_cons] at hfold
    cases hone : apply start label with
    | error error =>
      rw [hone] at hfold
      cases hfold
    | ok middle =>
      rw [hone] at hfold
      exact ih (fun htag => happ (mem_cons_of_mem _ htag)) hfold (happ mem_cons_self hstart hone)

end AgentDx.Transition
