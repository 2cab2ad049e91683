import Mathlib.Data.Finset.Card
import Mathlib.Data.List.Perm.Subperm

/-!
# Greedy selection

Items have a name and belong to a group.  A first pass over the candidates takes
those of groups not yet seen, a second pass takes any; no name is taken twice and
no more than a given number of items.  The selection reaches as many groups as
any selection of its size can.
-/

namespace AgentDx.Greedy

open List

variable {T N D : Type} [DecidableEq N] [DecidableEq D] (node : T → N) (domain : T → D) (count : ℕ)

/-- Takes one candidate, if there is room and nothing stands against it. -/
def pick (fresh : Bool) (selected : List T) (target : T) : List T :=
  if count ≤ selected.length ∨ node target ∈ selected.map node ∨
      fresh = true ∧ domain target ∈ selected.map domain then
    selected
  else
    selected ++ [target]

def select (selected candidates : List T) : List T :=
  candidates.foldl (pick node domain count false)
    (candidates.foldl (pick node domain count true) selected)

/-- What a pass over the candidates makes of a selection. -/
structure Passed (fresh : Bool) (candidates selected result : List T) : Prop where
  starts : selected <+: result
  inside : result ⊆ selected ++ candidates
  nodes : (selected.map node).Nodup → (result.map node).Nodup
  domains : fresh = true → (selected.map domain).Nodup → (result.map domain).Nodup
  short : selected.length ≤ count → result.length ≤ count
  full : result.length < count → ∀ target ∈ candidates, node target ∈ result.map node ∨
    fresh = true ∧ domain target ∈ result.map domain

/-- A selection from `pool` that starts as told, has the size asked for and
reaches as many groups as any of its size. -/
structure Optimal (start pool result : List T) : Prop where
  starts : start <+: result
  inside : result ⊆ pool
  nodes : (result.map node).Nodup
  length : result.length = count
  domains : ∀ other ⊆ pool, other.length ≤ count →
    (other.map domain).toFinset.card ≤ (result.map domain).toFinset.card

variable {node domain count} {selected candidates pool : List T}

lemma foldl_pick (fresh : Bool) (candidates selected : List T) :
    Passed node domain count fresh candidates selected
      (candidates.foldl (pick node domain count fresh) selected) := by
  induction candidates generalizing selected with
  | nil => exact ⟨prefix_rfl, by simp, id, fun _ => id, id, nofun⟩
  | cons target rest ih =>
    rw [foldl_cons, pick]
    split
    next hsk =>
      obtain ⟨hst, hin, hno, hdm, hsh, hfl⟩ := ih selected
      refine ⟨hst, fun item him => ?_, hno, hdm, hsh, fun hrm => ?_⟩
      · simpa [or_left_comm] using Or.inr (mem_append.mp (hin him))
      · refine forall_mem_cons.mpr ⟨?_, hfl hrm⟩
        rcases hsk with hc | hn | ⟨hf, hdo⟩
        · exact absurd (hc.trans hst.length_le) (not_le.mpr hrm)
        · exact .inl ((hst.map node).subset hn)
        · exact .inr ⟨hf, (hst.map domain).subset hdo⟩
    next htk =>
      rw [not_or, not_or, not_le] at htk
      obtain ⟨hc, hn, hdo⟩ := htk
      obtain ⟨hst, hin, hno, hdm, hsh, hfl⟩ := ih (selected ++ [target])
      refine ⟨(prefix_append _ _).trans hst, fun item him => ?_, fun hnd => ?_,
        fun hf hnd => ?_, fun _ => hsh ?_, fun hrm => ?_⟩
      · simpa using hin him
      · apply hno
        simpa using Nodup.concat hn hnd
      · apply hdm hf
        simpa using Nodup.concat (fun hm => hdo ⟨hf, hm⟩) hnd
      · exact length_append.trans_le hc
      · refine forall_mem_cons.mpr ⟨.inl ?_, hfl hrm⟩
        exact mem_map_of_mem (hst.subset (by simp))

lemma select_optimal (hpool : ∀ item, item ∈ selected ++ candidates ↔ item ∈ pool)
    (hnames : (pool.map node).Nodup) (henough : count ≤ pool.length)
    (hnodes : (selected.map node).Nodup) (hdomains : (selected.map domain).Nodup)
    (hroom : selected.length ≤ count) :
    Optimal node domain count selected pool (select node domain count selected candidates) := by
  have hfs : Passed node domain count _ _ _ _ := foldl_pick true candidates selected
  have hsn : Passed node domain count _ _ _ (select node domain count selected candidates) :=
    foldl_pick false candidates _
  generalize candidates.foldl (pick node domain count true) selected = middle at hfs hsn
  generalize select node domain count selected candidates = result at hsn ⊢
  have hst := hfs.starts.trans hsn.starts
  have hmd : middle ⊆ pool := fun item him => (hpool item).mp (hfs.inside him)
  have hin : result ⊆ pool := by
    intro item him
    rcases mem_append.mp (hsn.inside him) with hm | hm
    · exact hmd hm
    · exact (hpool item).mp (mem_append_right _ hm)
  refine ⟨hst, hin, hsn.nodes (hfs.nodes hnodes), ?_, fun other ho hsz => ?_⟩
  · refine (hsn.short (hfs.short hroom)).antisymm (not_lt.mp fun hls => ?_)
    have hcv : pool.map node ⊆ result.map node := by
      intro name hnm
      obtain ⟨item, him, rfl⟩ := mem_map.mp hnm
      rcases mem_append.mp ((hpool item).mpr him) with hm | hm
      · exact mem_map_of_mem (hst.subset hm)
      · simpa using hsn.full hls item hm
    have hln := (hnames.subperm hcv).length_le
    rw [length_map, length_map] at hln
    exact absurd hls (not_lt.mpr (henough.trans hln))
  · have hgr : (middle.map domain).toFinset ⊆ (result.map domain).toFinset := fun name hnm =>
      mem_toFinset.mpr ((hsn.starts.map domain).subset (mem_toFinset.mp hnm))
    refine le_trans ?_ (Finset.card_le_card hgr)
    -- either the first pass ran out of room, or it saw every group
    rcases lt_or_ge middle.length count with hls | hfl
    · refine Finset.card_le_card fun name hnm => ?_
      rw [mem_toFinset] at hnm ⊢
      obtain ⟨item, him, rfl⟩ := mem_map.mp hnm
      rcases mem_append.mp ((hpool item).mpr (ho him)) with hm | hm
      · exact mem_map_of_mem (hfs.starts.subset hm)
      · rcases hfs.full hls item hm with hn | ⟨-, hdo⟩
        · obtain ⟨same, heq, hnm⟩ := mem_map.mp hn
          rw [← inj_on_of_nodup_map hnames (hmd heq) (ho him) hnm]
          exact mem_map_of_mem heq
        · exact hdo
    · rw [toFinset_card_of_nodup (hfs.domains rfl hdomains), length_map]
      exact ((toFinset_card_le _).trans (by simpa using hsz)).trans hfl

end AgentDx.Greedy
