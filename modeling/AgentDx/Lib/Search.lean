import Mathlib

/-!
# Depth-first search

A search through the edges of a graph that threads the set of visited nodes
from one branch to the next and stops at its target.  It is written with fuel;
fuel beyond the number of nodes that have edges is enough for any search, and
what the search then answers is reachability.
-/

namespace AgentDx.Search

open List

variable {N : Type} [DecidableEq N]

/-- Visits nodes in order until one of them succeeds. -/
def searchAny (visit : N → List N → Option (Bool × List N)) :
    List N → List N → Option (Bool × List N)
  | [], visited => some (false, visited)
  | node :: nodes, visited =>
    match visit node visited with
    | none => none
    | some (true, seen) => some (true, seen)
    | some (false, seen) => searchAny visit nodes seen

/-- Searches for `target` from one node; `none` is a search out of fuel. -/
def searchFrom (edges : N → List N) (target : N) : ℕ → N → List N → Option (Bool × List N)
  | 0, _, _ => none
  | fuel + 1, current, visited =>
    if current = target then
      some (true, visited)
    else if current ∈ visited then
      some (false, visited)
    else
      searchAny (searchFrom edges target fuel) (edges current) (current :: visited)

def Edge (edges : N → List N) (first second : N) : Prop := second ∈ edges first

variable {edges : N → List N} {target current : N} {nodes visited seen : List N}
variable {visit : N → List N → Option (Bool × List N)}

/-! ## A search that finds its target -/

omit [DecidableEq N] in
lemma searchAny_true (hsearch : searchAny visit nodes visited = some (true, seen)) :
    ∃ node ∈ nodes, ∃ before after, visit node before = some (true, after) := by
  induction nodes generalizing visited with
  | nil => simp [searchAny] at hsearch
  | cons node nodes ih =>
    unfold searchAny at hsearch
    split at hsearch
    · cases hsearch
    next found hvs =>
      exact ⟨node, mem_cons_self, visited, found, hvs⟩
    · obtain ⟨other, ho, hr⟩ := ih hsearch
      exact ⟨other, mem_cons_of_mem _ ho, hr⟩

lemma searchFrom_true (hsearch : searchFrom edges target fuel current visited =
      some (true, seen)) : Relation.ReflTransGen (Edge edges) current target := by
  induction fuel generalizing current visited seen with
  | zero => cases hsearch
  | succ fuel ih =>
    unfold searchFrom at hsearch
    split at hsearch
    next hfn =>
      exact hfn ▸ .refl
    · split at hsearch
      · cases hsearch
      · obtain ⟨node, hn, _, _, hvs⟩ := searchAny_true hsearch
        exact .head hn (ih hvs)

/-! ## A search that does not -/

/-- What a failed search leaves: it saw its nodes, not the target, and with every
new node all of its edges. -/
structure Exhausts (edges : N → List N) (target : N) (nodes visited seen : List N) : Prop where
  grows : visited ⊆ seen
  covers : nodes ⊆ seen
  misses : target ∉ visited → target ∉ seen
  closed : ∀ node ∈ seen, node ∉ visited → edges node ⊆ seen

omit [DecidableEq N] in
lemma searchAny_false (hvisit : ∀ node before after, visit node before = some (false, after) →
      Exhausts edges target [node] before after)
    (hsearch : searchAny visit nodes visited = some (false, seen)) :
    Exhausts edges target nodes visited seen := by
  induction nodes generalizing visited with
  | nil =>
    cases hsearch
    exact ⟨List.Subset.refl _, nil_subset _, id, fun node hn hf => absurd hn hf⟩
  | cons node nodes ih =>
    unfold searchAny at hsearch
    split at hsearch
    · cases hsearch
    · cases hsearch
    next middle hmd =>
      have hfs := hvisit _ _ _ hmd
      have hr := ih hsearch
      refine ⟨List.Subset.trans hfs.grows hr.grows, ?_, fun hms => hr.misses (hfs.misses hms), ?_⟩
      · rw [cons_subset]
        exact ⟨hr.grows (hfs.covers mem_cons_self), hr.covers⟩
      · intro other ho hf
        by_cases hkn : other ∈ middle
        · exact List.Subset.trans (hfs.closed other hkn hf) hr.grows
        · exact hr.closed other ho hkn

lemma searchFrom_false (hsearch : searchFrom edges target fuel current visited =
      some (false, seen)) : Exhausts edges target [current] visited seen := by
  induction fuel generalizing current visited seen with
  | zero => cases hsearch
  | succ fuel ih =>
    unfold searchFrom at hsearch
    split at hsearch
    · cases hsearch
    next htg =>
      split at hsearch
      next hvs =>
        cases hsearch
        exact ⟨List.Subset.refl _, by simpa using hvs, id, fun node hn hf => absurd hn hf⟩
      · have hr := searchAny_false (fun _ _ _ hn => ih hn) hsearch
        refine ⟨List.Subset.trans (subset_cons_self _ _) hr.grows, ?_, ?_, ?_⟩
        · simpa using hr.grows mem_cons_self
        · intro hms
          apply hr.misses
          simp [hms, Ne.symm htg]
        · intro node hn hf
          by_cases hcr : node = current
          · subst hcr
            exact hr.covers
          · exact hr.closed node hn (by simp [hcr, hf])

omit [DecidableEq N] in
lemma mem_of_reaches (hshut : ∀ node ∈ seen, edges node ⊆ seen) (hone : first ∈ seen)
    (hpath : Relation.ReflTransGen (Edge edges) first target) : target ∈ seen := by
  induction hpath with
  | refl => exact hone
  | tail _ h ih => exact hshut _ ih h

/-! ## Fuel -/

omit [DecidableEq N] in
lemma searchAny_isSome {Good : List N → Prop}
    (hvisit : ∀ node before, Good before → (visit node before).isSome ∧
      ∀ after, visit node before = some (false, after) → Good after)
    (hgood : Good visited) : (searchAny visit nodes visited).isSome := by
  induction nodes generalizing visited with
  | nil => rfl
  | cons node nodes ih =>
    obtain ⟨hsm, ha⟩ := hvisit node visited hgood
    unfold searchAny
    split
    next hnn =>
      rw [hnn] at hsm
      exact hsm
    · rfl
    next seen hfl =>
      exact ih (ha seen hfl)

lemma searchFrom_isSome {sources : Finset N} (hsources : ∀ node, edges node ≠ [] → node ∈ sources)
    (hfuel : (sources.filter (· ∉ visited)).card + 1 < fuel) :
    (searchFrom edges target fuel current visited).isSome := by
  induction fuel generalizing current visited with
  | zero => omega
  | succ fuel ih =>
    unfold searchFrom
    split
    · rfl
    · split
      · rfl
      next hf =>
        by_cases hed : edges current = []
        · rw [hed]
          rfl
        · have hsm : (sources.filter (· ∉ current :: visited)).card <
              (sources.filter (· ∉ visited)).card := by
            apply Finset.card_lt_card
            rw [Finset.ssubset_iff_of_subset]
            · refine ⟨current, ?_, by simp⟩
              simp [hsources current hed, hf]
            · intro node hn
              simp only [Finset.mem_filter, mem_cons, not_or] at hn ⊢
              exact ⟨hn.1, hn.2.2⟩
          refine @searchAny_isSome _ _ _ _ (fun before =>
            (sources.filter (· ∉ before)).card + 1 < fuel) ?_ (by omega)
          intro node before hb
          refine ⟨ih hb, fun after ha => ?_⟩
          have hgr := (searchFrom_false ha).grows
          have hle : (sources.filter (· ∉ after)).card ≤ (sources.filter (· ∉ before)).card := by
            apply Finset.card_le_card
            intro other ho
            simp only [Finset.mem_filter] at ho ⊢
            exact ⟨ho.1, fun hin => ho.2 (hgr hin)⟩
          omega

/-! ## Reachability -/

/-- With enough fuel the search from several nodes answers whether one of them
reaches the target. -/
lemma searchAny_eq {sources : Finset N} (hsources : ∀ node, edges node ≠ [] → node ∈ sources)
    (hfuel : sources.card + 1 < fuel) (nodes) :
    ∃ found seen, searchAny (searchFrom edges target fuel) nodes [] = some (found, seen) ∧
      (found = true ↔ ∃ node ∈ nodes, Relation.ReflTransGen (Edge edges) node target) := by
  have hsm : (searchAny (searchFrom edges target fuel) nodes []).isSome := by
    refine @searchAny_isSome _ _ _ _ (fun before =>
      (sources.filter (· ∉ before)).card + 1 < fuel) ?_ (by simpa using hfuel)
    intro node before hb
    refine ⟨searchFrom_isSome hsources hb, fun after _ => ?_⟩
    have hle := Finset.card_le_card (Finset.filter_subset (· ∉ after) sources)
    omega
  obtain ⟨⟨found, seen⟩, hse⟩ := Option.isSome_iff_exists.mp hsm
  refine ⟨found, seen, hse, ?_⟩
  cases found with
  | true =>
    obtain ⟨node, hn, _, _, hvs⟩ := searchAny_true hse
    exact iff_of_true rfl ⟨node, hn, searchFrom_true hvs⟩
  | false =>
    have hex := searchAny_false (fun _ _ _ hvs => searchFrom_false hvs) hse
    refine iff_of_false (by simp) ?_
    rintro ⟨node, hn, hpt⟩
    refine hex.misses (by simp) (mem_of_reaches ?_ (hex.covers hn) hpt)
    exact fun other ho => hex.closed other ho (by simp)

/-! ## Acyclic relations -/

section Acyclic

variable {V : Type} {old new : V → V → Prop} {source : V} {targets : List V}

/-- No node is reached from itself. -/
def Acyclic (relation : V → V → Prop) : Prop := ∀ node, ¬ Relation.TransGen relation node node

lemma Acyclic.mono (hold : Acyclic old) (hless : ∀ first second,
    new first second → old first second) : Acyclic new :=
  fun node h => hold node (Relation.TransGen.mono hless _ _ h)

lemma reaches_source (hadds : ∀ first second, new first second →
      old first second ∨ first = source ∧ second ∈ targets)
    (hpath : Relation.ReflTransGen new node source) : Relation.ReflTransGen old node source := by
  induction hpath using Relation.ReflTransGen.head_induction_on with
  | refl => exact .refl
  | head hed _ ih =>
    rcases hadds _ _ hed with hol | ⟨rfl, _⟩
    · exact .head hol ih
    · exact .refl

lemma Acyclic.add_edges (hold : Acyclic old) (hadds : ∀ first second, new first second →
      old first second ∨ first = source ∧ second ∈ targets)
    (hsafe : ∀ target ∈ targets, ¬ Relation.ReflTransGen old target source) : Acyclic new := by
  have hnw : ∀ {first second}, Relation.TransGen new first second →
      Relation.TransGen old first second ∨ Relation.ReflTransGen new first source ∧
          ∃ target ∈ targets, Relation.ReflTransGen new target second := by
    intro first second hpt
    induction hpt with
    | single hed =>
      rcases hadds _ _ hed with hed | ⟨rfl, htg⟩
      · exact .inl (.single hed)
      · exact .inr ⟨.refl, _, htg, .refl⟩
    | tail hpt hed ih =>
      rcases ih with hb | ⟨hsr, target, htg, hre⟩
      · rcases hadds _ _ hed with hed | ⟨rfl, htg⟩
        · exact .inl (hb.tail hed)
        · exact .inr ⟨hpt.to_reflTransGen, _, htg, .refl⟩
      · exact .inr ⟨hsr, target, htg, hre.tail hed⟩
  intro node hcy
  rcases hnw hcy with hcy | ⟨hsr, target, htg, hre⟩
  · exact hold node hcy
  · exact hsafe target htg (reaches_source hadds (hre.trans hsr))

end Acyclic

end AgentDx.Search
