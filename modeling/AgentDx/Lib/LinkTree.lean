import Mathlib

/-!
# Trees with counted links

A tree of directories and files, as a store keeps it: named entries, each in a
parent and pointing to a node, and a link count at every node.  A file counts the
entries that name it.  A directory counts two links of its own and one for each
directory among its entries.

Changes are made of four small ones: a node is born, an entry is attached or
detached, and a directory without entries is dropped.  Between two of them one
directory may be loose, that is, named by no entry; what is below a loose
directory reaches it instead of the root.
-/

namespace AgentDx.LinkTree

open Option

variable {K N : Type}

structure Node where
  directory : Bool
  links : ℕ

/-- The links a node has of its own. -/
def Node.own (node : Node) : ℕ := if node.directory then 2 else 0

@[ext]
structure Layout (K N : Type) where
  node : N → Option Node
  entry : K → Option N

namespace Layout

/-! ## Observations -/

def isDirectory (layout : Layout K N) (name : N) : Bool := (layout.node name).any Node.directory

/-- A directory that has not been removed. -/
def Linked (layout : Layout K N) (name : N) : Prop :=
  ∃ node ∈ layout.node name, node.directory = true ∧ node.links ≠ 0

section Parents

variable (parent : K → N)

/-- The node whose link count an entry is counted in. -/
def charge (layout : Layout K N) (key : K) (target : N) : N :=
  if layout.isDirectory target then parent key else target

/-- The entries counted at a node. -/
def charged (layout : Layout K N) (name : N) : Set K :=
  {key | ∃ target ∈ layout.entry key, layout.charge parent key target = name}

/-- Following parents leads to a node where `Base` holds. -/
inductive Reaches (layout : Layout K N) (Base : N → Prop) : N → Prop where
  | base {name} (hbase : Base name) : Reaches layout Base name
  | step {key name} (hentry : layout.entry key = some name)
      (hparent : Reaches layout Base (parent key)) : Reaches layout Base name

variable {parent}

/-- A way up is followed in another layout, as long as `Good` nodes are met. -/
lemma Reaches.transport {layout next : Layout K N} {Base More} (Good : N → Prop)
    (hreach : layout.Reaches parent Base name)
    (hbase : ∀ name, Base name → next.Reaches parent More name)
    (hents : ∀ key name, Good name → layout.entry key = some name →
      next.entry key = some name ∧ Good (parent key) ∨ next.Reaches parent More name)
    (hgood : Good name) : next.Reaches parent More name := by
  induction hreach with
  | base hnm => exact hbase _ hnm
  | step he _ ih =>
    rcases hents _ _ hgood he with ⟨hkp, hgt⟩ | hrc
    · exact .step hkp (ih hgt)
    · exact hrc

lemma Reaches.mono {layout next : Layout K N} {Base More} (hreach : layout.Reaches parent Base name)
    (hbase : ∀ name, Base name → next.Reaches parent More name)
    (hents : ∀ key name, layout.entry key = some name →
      next.entry key = some name) : next.Reaches parent More name := by
  induction hreach with
  | base hnm => exact hbase _ hnm
  | step he _ ih => exact .step (hents _ _ he) ih

end Parents

/-! ## Well-formed trees -/

/-- A tree in which at most the directory `loose` is not named. -/
structure WellFormed (parent : K → N) (root : N) (layout : Layout K N)
    (loose : Option N) : Prop where
  finite : {key | (layout.entry key).isSome}.Finite
  root_linked : layout.Linked root
  root_unnamed : ∀ key, layout.entry key ≠ some root
  target : ∀ {key name}, layout.entry key = some name →
    ∃ node ∈ layout.node name, node.directory = true → node.links ≠ 0
  parent_linked : ∀ {key name}, layout.entry key = some name → layout.Linked (parent key)
  loose_ne_root : root ∉ loose
  loose_linked : ∀ name ∈ loose, layout.Linked name
  loose_unnamed : ∀ name ∈ loose, ∀ key, layout.entry key ≠ some name
  named : ∀ {name}, layout.Linked name → name ≠ root → name ∉ loose →
    ∃ key, layout.entry key = some name
  single : ∀ {first second name}, layout.isDirectory name = true →
    layout.entry first = some name → layout.entry second = some name → first = second
  reaches : ∀ {name}, layout.Linked name →
    layout.Reaches parent (fun base => base = root ∨ base ∈ loose) name
  counts : ∀ {name node}, layout.node name = some node → (node.directory = true → node.links ≠ 0) →
    node.links = node.own + (layout.charged parent name).ncard

/-! ## Small changes -/

section Changes

variable [DecidableEq K] [DecidableEq N]

/-- Changes the link count of one node. -/
def relink (layout : Layout K N) (name : N) (change : ℕ → ℕ) : Layout K N where
  node other := if other = name then
      (layout.node other).map fun node => { node with links := change node.links }
    else layout.node other
  entry := layout.entry

def setEntry (layout : Layout K N) (key : K) (target : Option N) : Layout K N where
  node := layout.node
  entry other := if other = key then target else layout.entry other

variable (parent : K → N)

def attach (layout : Layout K N) (key : K) (target : N) : Layout K N :=
  (layout.setEntry key (some target)).relink (layout.charge parent key target) (· + 1)

def detach (layout : Layout K N) (key : K) (target : N) : Layout K N :=
  (layout.setEntry key none).relink (layout.charge parent key target) (· - 1)

def drop (layout : Layout K N) (name : N) : Layout K N := layout.relink name fun _ => 0

/-- A new node, with the links it has of its own. -/
def birth (layout : Layout K N) (name : N) (directory : Bool) : Layout K N where
  node other := if other = name then
      some ⟨directory, Node.own ⟨directory, 0⟩⟩
    else layout.node other
  entry := layout.entry

variable {parent} {root : N} {layout : Layout K N} {loose : Option N}

/-! ## What a small change keeps -/

lemma node_attach (hcost : layout.charge parent key target = name) (other) :
    (layout.attach parent key target).node other = if other = name then
        (layout.node other).map fun node => ⟨node.directory, node.links + 1⟩
      else layout.node other := by
  subst hcost
  rfl

lemma node_detach (hcost : layout.charge parent key target = name) (other) :
    (layout.detach parent key target).node other = if other = name then
        (layout.node other).map fun node => ⟨node.directory, node.links - 1⟩
      else layout.node other := by
  subst hcost
  rfl

omit [DecidableEq K] in
@[simp]
lemma entry_relink (name change key) : (layout.relink name change).entry key = layout.entry key :=
  rfl

omit [DecidableEq K] in
@[simp]
lemma isDirectory_relink (name change other) :
    (layout.relink name change).isDirectory other = layout.isDirectory other := by
  simp only [isDirectory, relink]
  split
  · simp [any_map]
  · rfl

omit [DecidableEq K] in
@[simp]
lemma charged_relink (name change other) :
    (layout.relink name change).charged parent other = layout.charged parent other := by
  ext key
  simp [charged, charge]

omit [DecidableEq K] in
lemma linked_relink_iff (hchange : ∀ node ∈ layout.node name, node.directory = true →
      (change node.links = 0 ↔ node.links = 0)) :
    (layout.relink name change).Linked other ↔ layout.Linked other := by
  by_cases ho : other = name
  · subst ho
    cases hn : layout.node other with
    | none => simp [Linked, relink, hn]
    | some node =>
      simp only [Linked, relink, hn, if_pos, map_some, mem_some_iff, exists_eq_left', ne_eq]
      exact and_congr_right fun hdr =>
        not_congr (hchange node hn hdr)
  · simp [Linked, relink, ho]

omit [DecidableEq K] [DecidableEq N] in
lemma isDirectory_of_linked {name} (hlink : layout.Linked name) :
    layout.isDirectory name = true := by
  obtain ⟨node, hn, hdr, _⟩ := hlink
  rw [mem_def] at hn
  simp [isDirectory, hn, hdr]

omit [DecidableEq N] in
lemma setEntry_entry (key value other) :
    (layout.setEntry key value).entry other = if other = key then value else layout.entry other :=
  rfl

omit [DecidableEq N] in
@[simp]
lemma charge_setEntry (key value other name) :
    (layout.setEntry key value).charge parent other name = layout.charge parent other name :=
  rfl

omit [DecidableEq N] in
lemma charged_setEntry_none {key} (name) :
    (layout.setEntry key none).charged parent name = layout.charged parent name \ {key} := by
  ext other
  by_cases h : other = key
  · simp [charged, setEntry_entry, h]
  · simp [charged, charge_setEntry, setEntry_entry, h]

lemma charged_setEntry_some {key} (hfree : layout.entry key = none) (name) :
    (layout.setEntry key (some target)).charged parent name =
      if layout.charge parent key target = name then
        insert key (layout.charged parent name)
      else layout.charged parent name := by
  ext other
  by_cases ho : other = key
  · subst ho
    split
    next hch =>
      simpa [charged, setEntry_entry] using hch
    next hch =>
      simpa [charged, setEntry_entry, hfree] using hch
  · split <;> simp [charged, charge_setEntry, setEntry_entry, ho]

omit [DecidableEq K] [DecidableEq N] in
lemma WellFormed.charged_finite (hwf : WellFormed parent root layout loose) (name) :
    (layout.charged parent name).Finite := by
  refine hwf.finite.subset ?_
  rintro key ⟨target, h, _⟩
  rw [mem_def] at h
  simp [h]

/-! ## A node is born -/

omit [DecidableEq K] [DecidableEq N] in
lemma WellFormed.entry_ne (hwf : WellFormed parent root layout loose)
    (hnew : layout.node name = none) : layout.entry key ≠ some name := by
  intro he
  obtain ⟨node, hn, _⟩ := hwf.target he
  simp [hnew] at hn

omit [DecidableEq K] [DecidableEq N] in
lemma WellFormed.parent_ne {name target} (hwf : WellFormed parent root layout loose)
    (hnew : layout.node name = none) (hrow : layout.entry key = some target) :
        parent key ≠ name := by
  rintro rfl
  obtain ⟨node, h, _⟩ := hwf.parent_linked hrow
  simp [hnew] at h

omit [DecidableEq K] in
lemma isDirectory_birth (hother : other ≠ name) :
    (layout.birth name directory).isDirectory other = layout.isDirectory other := by
  simp [isDirectory, birth, hother]

omit [DecidableEq K] in
lemma linked_birth_iff (hnew : layout.node name = none) :
    (layout.birth name directory).Linked other ↔
      layout.Linked other ∨ other = name ∧ directory = true := by
  by_cases h : other = name
  · subst h
    simp only [Linked, birth, hnew, if_pos, mem_some_iff, exists_eq_left', Node.own]
    cases directory <;> simp
  · simp [Linked, birth, h]

omit [DecidableEq K] in
lemma charged_birth (hwf : WellFormed parent root layout loose)
    (hnew : layout.node name = none) (other) :
    (layout.birth name directory).charged parent other = layout.charged parent other := by
  ext key
  refine exists_congr fun target => and_congr_right fun h => ?_
  have hne : target ≠ name := by
    rintro rfl
    exact hwf.entry_ne hnew h
  simp only [charge, isDirectory_birth hne]

omit [DecidableEq K] [DecidableEq N] in
lemma WellFormed.charged_fresh {name} (hwf : WellFormed parent root layout loose)
    (hnew : layout.node name = none) : layout.charged parent name = ∅ := by
  ext key
  simp only [charged, charge, mem_def, Set.mem_ofPred_eq,
    Set.mem_empty_iff_false, iff_false, not_exists, not_and]
  intro target h
  split
  · exact hwf.parent_ne hnew h
  · rintro rfl
    exact hwf.entry_ne hnew h

omit [DecidableEq K] in
lemma WellFormed.birth {name} (directory) (hwf : WellFormed parent root layout none)
    (hnew : layout.node name = none) : WellFormed parent root (layout.birth name directory)
      (if directory then some name else none) where
  finite := hwf.finite
  root_linked := (linked_birth_iff hnew).mpr (.inl hwf.root_linked)
  root_unnamed := hwf.root_unnamed
  target := by
    intro key target he
    have hne : target ≠ name := by
      rintro rfl
      exact hwf.entry_ne hnew he
    simpa [Layout.birth, hne] using hwf.target he
  parent_linked := fun he =>
    (linked_birth_iff hnew).mpr (.inl (hwf.parent_linked he))
  loose_ne_root := by
    intro hlo
    obtain ⟨node, hn, _⟩ := hwf.root_linked
    split at hlo
    · cases hlo
      simp [hnew] at hn
    · cases hlo
  loose_linked := by
    intro other hlo
    split at hlo
    next hdr =>
      cases hlo
      exact (linked_birth_iff hnew).mpr (.inr ⟨rfl, hdr⟩)
    · cases hlo
  loose_unnamed := by
    intro other hlo key
    split at hlo
    · cases hlo
      exact hwf.entry_ne hnew
    · cases hlo
  named := by
    intro other hln hrt hlo
    rcases (linked_birth_iff hnew).mp hln with hol | ⟨rfl, rfl⟩
    · exact hwf.named hol hrt (by simp)
    · simp at hlo
  single := by
    intro first second other hdr hfs hsn
    have hne : other ≠ name := by
      rintro rfl
      exact hwf.entry_ne hnew hfs
    refine hwf.single ?_ hfs hsn
    rwa [isDirectory_birth hne] at hdr
  reaches := by
    intro other hln
    rcases (linked_birth_iff hnew).mp hln with hol | ⟨rfl, rfl⟩
    · refine (hwf.reaches hol).mono ?_ fun _ _ he => he
      rintro base (hrt | hlo)
      · exact .base (.inl hrt)
      · cases hlo
    · exact .base (.inr (by simp))
  counts := by
    intro other node hn hln
    rw [charged_birth hwf hnew]
    by_cases ho : other = name
    · subst ho
      rw [hwf.charged_fresh hnew, Set.ncard_empty]
      simp only [Layout.birth, if_pos, Option.some.injEq] at hn
      subst hn
      rfl
    · refine hwf.counts ?_ hln
      simpa [Layout.birth, ho] using hn

/-! ## An entry is attached -/

section Attach

variable {key : K} {target : N} {node : Node}

/-- What attaching an entry asks for: a directory must be the loose one, and
the place it goes to must not be below it. -/
structure Attachable (parent : K → N) (root : N) (layout : Layout K N)
    (loose : Option N) (key : K) (target : N) : Prop where
  free : layout.entry key = none
  parent_linked : layout.Linked (parent key)
  present : (layout.node target).isSome
  directory : layout.isDirectory target = true → loose = some target ∧
    layout.Reaches parent (· = root) (parent key)
  file : layout.isDirectory target = false → loose = none

omit [DecidableEq K] [DecidableEq N] in
lemma Attachable.charge_linked (hattach : Attachable parent root layout loose key target)
    (hnode : layout.node (layout.charge parent key target) = some node)
    (hdir : node.directory = true) : node.links ≠ 0 := by
  have hln : layout.Linked (layout.charge parent key target) := by
    unfold charge at hnode ⊢
    split
    · exact hattach.parent_linked
    next hfl =>
      rw [if_neg hfl] at hnode
      simp [isDirectory, hnode, hdir] at hfl
  obtain ⟨same, heq, _, hlk⟩ := hln
  cases mem_unique hnode heq
  exact hlk

lemma linked_attach_iff (hattach : Attachable parent root layout loose key target) {other} :
    (layout.attach parent key target).Linked other ↔ layout.Linked other := by
  refine (linked_relink_iff ?_).trans Iff.rfl
  intro node hn hdr
  have hlk := hattach.charge_linked hn hdr
  simp [hlk]

lemma WellFormed.attach (hwf : WellFormed parent root layout loose)
    (hattach : Attachable parent root layout loose key target) :
    WellFormed parent root (layout.attach parent key target) none where
  finite := by
    refine (hwf.finite.insert key).subset fun other ho => ?_
    by_cases hky : other = key
    · exact .inl hky
    · refine .inr ?_
      simpa [Layout.attach, setEntry_entry, hky] using ho
  root_linked := (linked_attach_iff hattach).mpr hwf.root_linked
  root_unnamed := by
    intro other
    simp only [Layout.attach, entry_relink, setEntry_entry]
    split
    · rintro heq
      cases heq
      have hlo := (hattach.directory (isDirectory_of_linked hwf.root_linked)).1
      exact hwf.loose_ne_root hlo
    · exact hwf.root_unnamed other
  target := by
    intro other name he
    have hdn : ∃ node ∈ layout.node name, node.directory = true → node.links ≠ 0 := by
      simp only [Layout.attach, entry_relink, setEntry_entry] at he
      split at he
      · cases he
        obtain ⟨node, hn⟩ := isSome_iff_exists.mp hattach.present
        refine ⟨node, hn, fun hdr => ?_⟩
        have hlo := (hattach.directory (by simp [isDirectory, hn, hdr])).1
        obtain ⟨same, hsm, _, hlk⟩ := hwf.loose_linked target hlo
        cases mem_unique hn hsm
        exact hlk
      · exact hwf.target he
    obtain ⟨node, hn, hlk⟩ := hdn
    rw [mem_def] at hn
    by_cases hch : name = layout.charge parent key target
    · refine ⟨{ node with links := node.links + 1 }, ?_, by simp⟩
      simp [Layout.attach, relink, setEntry, ← hch, hn]
    · refine ⟨node, ?_, hlk⟩
      simp [Layout.attach, relink, setEntry, hch, hn]
  parent_linked := by
    intro other name he
    rw [linked_attach_iff hattach]
    simp only [Layout.attach, entry_relink, setEntry_entry] at he
    split at he
    next hky =>
      exact hky ▸ hattach.parent_linked
    · exact hwf.parent_linked he
  loose_ne_root := by simp
  loose_linked := by simp
  loose_unnamed := by simp
  named := by
    intro name hln hrt _
    have hol := (linked_attach_iff hattach).mp hln
    by_cases htg : name = target
    · exact ⟨key, by simp [Layout.attach, setEntry_entry, htg]⟩
    · have hlo : name ∉ loose := by
        intro hlo
        have hdr : layout.isDirectory target = true := by
          by_contra hfl
          simp [hattach.file (by simpa using hfl)] at hlo
        rw [(hattach.directory hdr).1] at hlo
        exact htg (Option.some.inj hlo).symm
      obtain ⟨other, ho⟩ := hwf.named hol hrt hlo
      refine ⟨other, ?_⟩
      have hky : other ≠ key := by
        rintro rfl
        simp [hattach.free] at ho
      simpa [Layout.attach, setEntry_entry, hky] using ho
  single := by
    intro first second name hdr hfs hsn
    simp only [Layout.attach, isDirectory_relink, entry_relink, setEntry_entry] at hdr hfs hsn
    change layout.isDirectory name = true at hdr
    have hun : target = name → ∀ other, layout.entry other ≠ some name := by
      rintro rfl
      exact hwf.loose_unnamed target (hattach.directory hdr).1
    split at hfs <;> split at hsn
    next hon htw =>
      rw [hon, htw]
    · exact absurd hsn (hun (Option.some.inj hfs) second)
    · exact absurd hfs (hun (Option.some.inj hsn) first)
    · exact hwf.single hdr hfs hsn
  reaches := by
    intro name hln
    have hkp : ∀ other name, layout.entry other = some name →
        (layout.attach parent key target).entry other = some name := by
      intro other name he
      have hky : other ≠ key := by
        rintro rfl
        simp [hattach.free] at he
      simpa [Layout.attach, setEntry_entry, hky] using he
    refine (hwf.reaches ((linked_attach_iff hattach).mp hln)).mono ?_ hkp
    rintro base (hrt | hlo)
    · exact .base (.inl hrt)
    · have hdr : layout.isDirectory target = true := by
        by_contra hfl
        simp [hattach.file (by simpa using hfl)] at hlo
      obtain ⟨hsm, hgt⟩ := hattach.directory hdr
      cases hsm.symm.trans hlo
      have he : (layout.attach parent key target).entry key =
          some target := by simp [Layout.attach, setEntry_entry]
      apply Reaches.step he
      exact hgt.mono (fun _ hrt => .base (.inl hrt)) hkp
  counts := by
    intro name node hn hln
    have hfr : key ∉ layout.charged parent name := by
      rintro ⟨_, he, _⟩
      simp [hattach.free] at he
    simp only [Layout.attach, charged_relink, charged_setEntry_some hattach.free]
    by_cases hch : layout.charge parent key target = name
    · subst hch
      rw [if_pos rfl, Set.ncard_insert_of_notMem hfr (hwf.charged_finite _)]
      simp only [Layout.attach, relink, setEntry, if_pos, map_eq_some_iff] at hn
      obtain ⟨before, hb, rfl⟩ := hn
      have hcn := hwf.counts hb (hattach.charge_linked hb)
      simp only [Node.own] at hcn ⊢
      omega
    · rw [if_neg hch]
      refine hwf.counts ?_ hln
      simpa [Layout.attach, relink, setEntry, Ne.symm hch] using hn

end Attach

/-! ## An entry is detached -/

section Detach

variable {key : K} {target : N}

omit [DecidableEq K] [DecidableEq N] in
lemma mem_charged (hrow : layout.entry key = some target) :
    key ∈ layout.charged parent (layout.charge parent key target) :=
  ⟨target, hrow, rfl⟩

omit [DecidableEq K] [DecidableEq N] in
lemma WellFormed.charge_links (hwf : WellFormed parent root layout loose)
    (hrow : layout.entry key = some target) {node}
    (hnode : layout.node (layout.charge parent key target) = some node) :
    node.links = node.own + (layout.charged parent (layout.charge parent key target)).ncard ∧
      0 < (layout.charged parent (layout.charge parent key target)).ncard := by
  constructor
  · apply hwf.counts hnode
    intro hdr
    unfold charge at hnode
    split at hnode
    · obtain ⟨same, heq, _, hlk⟩ := hwf.parent_linked hrow
      cases mem_unique hnode heq
      exact hlk
    next hfl =>
      simp [isDirectory, hnode, hdr] at hfl
  · rw [Set.ncard_pos (hwf.charged_finite _)]
    exact ⟨key, mem_charged hrow⟩

lemma linked_detach_iff (hwf : WellFormed parent root layout loose)
    (hrow : layout.entry key = some target) {other} :
    (layout.detach parent key target).Linked other ↔ layout.Linked other := by
  refine (linked_relink_iff ?_).trans Iff.rfl
  intro node hn hdr
  obtain ⟨hlk, _⟩ := hwf.charge_links hrow hn
  simp only [Node.own, hdr, if_pos] at hlk
  omega

lemma entry_detach {other name} : (layout.detach parent key target).entry other = some name ↔
      other ≠ key ∧ layout.entry other = some name := by
  simp only [Layout.detach, entry_relink, setEntry_entry]
  split <;> simp_all

lemma WellFormed.detach (hwf : WellFormed parent root layout none)
    (hrow : layout.entry key = some target) :
    WellFormed parent root (layout.detach parent key target)
      (if layout.isDirectory target then some target else none) where
  finite := by
    refine hwf.finite.subset fun other ho => ?_
    obtain ⟨name, hnm⟩ := isSome_iff_exists.mp ho
    exact isSome_iff_exists.mpr ⟨name, (entry_detach.mp hnm).2⟩
  root_linked := (linked_detach_iff hwf hrow).mpr hwf.root_linked
  root_unnamed := fun other ho =>
    hwf.root_unnamed other (entry_detach.mp ho).2
  target := by
    intro other name ho
    obtain ⟨node, hn, hlk⟩ := hwf.target (entry_detach.mp ho).2
    rw [mem_def] at hn
    by_cases hch : name = layout.charge parent key target
    · refine ⟨{ node with links := node.links - 1 }, ?_, ?_⟩
      · simp [Layout.detach, relink, setEntry, ← hch, hn]
      · intro hdr
        obtain ⟨hcn, _⟩ := hwf.charge_links hrow (hch ▸ hn)
        simp only [Node.own, show node.directory = true from hdr, if_pos] at hcn
        show node.links - 1 ≠ 0
        omega
    · refine ⟨node, ?_, hlk⟩
      simp [Layout.detach, relink, setEntry, hch, hn]
  parent_linked := fun ho => (linked_detach_iff hwf hrow).mpr
    (hwf.parent_linked (entry_detach.mp ho).2)
  loose_ne_root := by
    intro hlo
    split at hlo
    · exact hwf.root_unnamed key (hrow.trans hlo)
    · cases hlo
  loose_linked := by
    intro name hlo
    rw [linked_detach_iff hwf hrow]
    split at hlo
    next hdr =>
      cases hlo
      obtain ⟨node, hn, hlk⟩ := hwf.target hrow
      rw [mem_def] at hn
      have hdi : node.directory = true := by
        simpa [isDirectory, hn] using hdr
      exact ⟨node, hn, hdi, hlk hdi⟩
    · cases hlo
  loose_unnamed := by
    intro name hlo other ho
    obtain ⟨hky, ho⟩ := entry_detach.mp ho
    split at hlo
    next hdr =>
      cases hlo
      exact hky (hwf.single hdr ho hrow)
    · cases hlo
  named := by
    intro name hln hrt hlo
    have hol := (linked_detach_iff hwf hrow).mp hln
    obtain ⟨other, ho⟩ := hwf.named hol hrt (by simp)
    refine ⟨other, entry_detach.mpr ⟨?_, ho⟩⟩
    rintro rfl
    cases hrow.symm.trans ho
    simp [isDirectory_of_linked hol] at hlo
  single := by
    intro first second name hdr hfs hsn
    simp only [Layout.detach, isDirectory_relink] at hdr
    exact hwf.single hdr (entry_detach.mp hfs).2 (entry_detach.mp hsn).2
  reaches := by
    intro name hln
    have hol := (linked_detach_iff hwf hrow).mp hln
    refine (hwf.reaches hol).transport layout.Linked ?_ ?_ hol
    · rintro base (hrt | hlo)
      · exact .base (.inl hrt)
      · cases hlo
    · intro other name hln ho
      by_cases hky : other = key
      · subst hky
        cases hrow.symm.trans ho
        refine .inr (.base (.inr ?_))
        simp [isDirectory_of_linked hln]
      · exact .inl ⟨entry_detach.mpr ⟨hky, ho⟩, hwf.parent_linked ho⟩
  counts := by
    intro name node hn hln
    simp only [Layout.detach, charged_relink, charged_setEntry_none]
    by_cases hch : layout.charge parent key target = name
    · subst hch
      rw [Set.ncard_sdiff_singleton_of_mem (mem_charged hrow)]
      simp only [Layout.detach, relink, setEntry, if_pos, map_eq_some_iff] at hn
      obtain ⟨before, hb, rfl⟩ := hn
      obtain ⟨hcn, hps⟩ := hwf.charge_links hrow hb
      simp only [Node.own] at hcn ⊢
      omega
    · have ho : key ∉ layout.charged parent name := by
        rintro ⟨same, heq, hnm⟩
        cases mem_unique hrow heq
        exact hch hnm
      rw [Set.sdiff_singleton_eq_self ho]
      refine hwf.counts ?_ hln
      simpa [Layout.detach, relink, setEntry, Ne.symm hch] using hn

end Detach

/-! ## A directory is dropped -/

section Drop

variable {name : N}

omit [DecidableEq K] in
lemma linked_drop_iff : (layout.drop name).Linked other ↔ other ≠ name ∧ layout.Linked other := by
  by_cases h : other = name
  · simp [Linked, drop, relink, h]
  · simp [Linked, drop, relink, h]

omit [DecidableEq K] in
lemma WellFormed.drop (hwf : WellFormed parent root layout (some name))
    (hnil : ∀ key, parent key = name → layout.entry key = none) :
    WellFormed parent root (layout.drop name) none := by
  have hun : ∀ key, layout.entry key ≠ some name := hwf.loose_unnamed name rfl
  have hgt : ∀ {key target}, layout.entry key = some target → parent key ≠ name := by
    intro key target he hpr
    simp [hnil key hpr] at he
  have hrt : root ≠ name := fun heq =>
    hwf.loose_ne_root (congrArg some heq.symm)
  constructor
  case finite => exact hwf.finite
  case root_linked => exact linked_drop_iff.mpr ⟨hrt, hwf.root_linked⟩
  case root_unnamed => exact hwf.root_unnamed
  case target =>
    intro key target he
    have hne : target ≠ name := fun heq => hun key (heq ▸ he)
    simpa [Layout.drop, relink, hne] using hwf.target he
  case parent_linked =>
    intro key target he
    exact linked_drop_iff.mpr ⟨hgt he, hwf.parent_linked he⟩
  case loose_ne_root => simp
  case loose_linked => simp
  case loose_unnamed => simp
  case named =>
    intro other hln ho _
    obtain ⟨hne, hol⟩ := linked_drop_iff.mp hln
    exact hwf.named hol ho (by simpa using hne.symm)
  case single =>
    intro first second other hdr hfs hsn
    rw [Layout.drop, isDirectory_relink] at hdr
    exact hwf.single hdr hfs hsn
  case reaches =>
    intro other hln
    obtain ⟨hne, hol⟩ := linked_drop_iff.mp hln
    have hwy : (layout.drop name).Reaches parent
        (fun base => base = root ∨ base ∈ (none : Option N)) other ∨ other = name := by
      generalize hbs : (fun base => base = root ∨ base ∈ some name) = bases
      have hre := hwf.reaches hol
      rw [hbs] at hre
      clear hln hne hol
      induction hre with
      | base hba =>
        subst hbs
        rcases hba with heq | heq
        · exact .inl (.base (.inl heq))
        · exact .inr (Option.some.inj heq).symm
      | step he _ ih =>
        rcases ih with hup | heq
        · exact .inl (.step he hup)
        · exact absurd heq (hgt he)
    exact hwy.resolve_right hne
  case counts =>
    intro other node hn hlk
    rw [Layout.drop, charged_relink]
    by_cases ho : other = name
    · subst ho
      simp only [Layout.drop, relink, if_pos, map_eq_some_iff] at hn
      obtain ⟨before, hb, rfl⟩ := hn
      obtain ⟨same, hsm, hdr, _⟩ := hwf.loose_linked other rfl
      cases mem_unique hb hsm
      exact absurd rfl (hlk hdr)
    · refine hwf.counts ?_ hlk
      simpa [Layout.drop, relink, ho] using hn

end Drop

/-! ## Removing, moving and replacing -/

section Compose

variable {key old new : K} {target replaced : N}

/-- Removes an entry, and its directory with it. -/
def remove (parent : K → N) (layout : Layout K N) (key : K) (target : N) : Layout K N :=
  if layout.isDirectory target then (layout.detach parent key target).drop target
  else layout.detach parent key target

def move (parent : K → N) (layout : Layout K N) (old new : K) (target : N) : Layout K N :=
  (layout.detach parent old target).attach parent new target

/-- The layout without the entries that name a node. -/
def without (layout : Layout K N) (name : N) : Layout K N where
  node := layout.node
  entry key := if layout.entry key = some name then none else layout.entry key

omit [DecidableEq K] in
lemma entry_without {name other} : (layout.without name).entry key = some other ↔
      layout.entry key = some other ∧ other ≠ name := by
  simp only [without]
  split
  next hnm =>
    simp [hnm, eq_comm]
  next hnm =>
    refine ⟨fun ho => ⟨ho, ?_⟩, And.left⟩
    rintro rfl
    exact hnm ho

lemma entry_remove {other name} : (layout.remove parent key target).entry other = some name ↔
      other ≠ key ∧ layout.entry other = some name := by
  have h := @entry_detach K N _ _ parent layout key target other name
  unfold remove
  split <;> exact h

@[simp]
lemma isDirectory_detach (name) :
    (layout.detach parent key target).isDirectory name = layout.isDirectory name := by
  rw [detach, isDirectory_relink]
  rfl

@[simp]
lemma isDirectory_remove (name) :
    (layout.remove parent key target).isDirectory name = layout.isDirectory name := by
  unfold remove
  split <;> simp [drop]

lemma remove_entry (other) : (layout.remove parent key target).entry other =
      if other = key then none else layout.entry other := by
  unfold remove
  split <;> rfl

lemma move_entry (other) :
    (layout.move parent old new target).entry other = if other = new then some target
      else if other = old then none
      else layout.entry other :=
  rfl

lemma node_remove_directory (hdir : layout.isDirectory target = true) (other) :
    (layout.remove parent key target).node other = if other = target then
        (layout.node other).map fun node => ⟨node.directory, 0⟩
      else if other = parent key then
        (layout.node other).map fun node => ⟨node.directory, node.links - 1⟩
      else layout.node other := by
  have h : layout.charge parent key target = parent key := if_pos hdir
  rw [remove, if_pos hdir]
  simp only [drop, relink]
  rw [node_detach h]
  split
  · split <;> simp [Function.comp_def]
  · rfl

lemma node_remove_file (hfile : layout.isDirectory target = false) (other) :
    (layout.remove parent key target).node other = if other = target then
        (layout.node other).map fun node => ⟨node.directory, node.links - 1⟩
      else layout.node other := by
  have h : layout.charge parent key target = target := by
    simp [charge, hfile]
  rw [remove, if_neg (by simp [hfile])]
  exact node_detach h other

lemma node_move_directory (hdir : layout.isDirectory target = true) (other) :
    (layout.move parent old new target).node other = if other = parent new then
        (if other = parent old then
          (layout.node other).map fun node => ⟨node.directory, node.links - 1 + 1⟩
        else
          (layout.node other).map fun node => ⟨node.directory, node.links + 1⟩)
      else if other = parent old then
        (layout.node other).map fun node => ⟨node.directory, node.links - 1⟩
      else layout.node other := by
  have hol : layout.charge parent old target = parent old := if_pos hdir
  have hnw : (layout.detach parent old target).charge parent new target = parent new := by
    simp [charge, hdir]
  rw [move, node_attach hnw, node_detach hol]
  split
  · split <;> simp [Function.comp_def]
  · rfl

lemma node_move_file (hfile : layout.isDirectory target = false) (other) :
    (layout.move parent old new target).node other = if other = target then
        (layout.node other).map fun node => ⟨node.directory, node.links - 1 + 1⟩
      else layout.node other := by
  have hol : layout.charge parent old target = target := by
    simp [charge, hfile]
  have hnw : (layout.detach parent old target).charge parent new target = target := by
    simp [charge, hfile]
  rw [move, node_attach hnw, node_detach hol]
  split <;> simp [Function.comp_def]

lemma WellFormed.remove (hwf : WellFormed parent root layout none)
    (hrow : layout.entry key = some target) (hnil : layout.isDirectory target = true →
      ∀ other, parent other = target → layout.entry other = none) :
    WellFormed parent root (layout.remove parent key target) none := by
  have hdt := hwf.detach hrow
  unfold Layout.remove
  split at hdt
  next hdr =>
    rw [if_pos hdr]
    refine hdt.drop fun other ho => ?_
    rw [eq_none_iff_forall_ne_some]
    intro name hnm
    have hkp := (entry_detach.mp hnm).2
    simp [hnil hdr other ho] at hkp
  next hfl =>
    rw [if_neg hfl]
    exact hdt

lemma linked_remove (hwf : WellFormed parent root layout none)
    (hrow : layout.entry key = some target) {name} (hne : name ≠ target)
    (hlink : layout.Linked name) :
    (layout.remove parent key target).Linked name := by
  have h := (linked_detach_iff hwf hrow).mpr hlink
  unfold remove
  split
  · exact linked_drop_iff.mpr ⟨hne, h⟩
  · exact h

lemma WellFormed.move (hwf : WellFormed parent root layout none)
    (hrow : layout.entry old = some target) (hfree : layout.entry new = none)
    (hup : layout.Linked (parent new)) (houtside : layout.isDirectory target = true →
      (layout.without target).Reaches parent (· = root) (parent new)) :
    WellFormed parent root (layout.move parent old new target) none := by
  refine (hwf.detach hrow).attach ⟨?_, ?_, ?_, ?_, ?_⟩
  · rw [eq_none_iff_forall_ne_some]
    intro name hnm
    have hkp := (entry_detach.mp hnm).2
    simp [hfree] at hkp
  · exact (linked_detach_iff hwf hrow).mpr hup
  · obtain ⟨node, hn, _⟩ := hwf.target hrow
    rw [mem_def] at hn
    simp only [Layout.detach, relink, setEntry]
    split <;> simp [hn]
  · intro hdr
    rw [isDirectory_detach] at hdr
    refine ⟨if_pos hdr, (houtside hdr).mono (fun _ hrt => .base hrt) fun other name ho => ?_⟩
    obtain ⟨hnm, hne⟩ := entry_without.mp ho
    refine entry_detach.mpr ⟨?_, hnm⟩
    rintro rfl
    exact hne (Option.some.inj (hnm.symm.trans hrow))
  · intro hfl
    rw [isDirectory_detach] at hfl
    simp [hfl]

lemma WellFormed.replace (hwf : WellFormed parent root layout none)
    (hold : layout.entry old = some target)
    (hnew : layout.entry new = some replaced) (hne : replaced ≠ target)
    (hnil : layout.isDirectory replaced = true →
      ∀ other, parent other = replaced → layout.entry other = none)
    (houtside : layout.isDirectory target = true →
      (layout.without target).Reaches parent (· = root) (parent new)) : WellFormed parent root
      ((layout.remove parent new replaced).move parent old new target) none := by
  have hgt : ∀ {key name}, layout.entry key = some name →
      layout.Linked (parent key) ∧ parent key ≠ replaced := by
    intro key name he
    have hln := hwf.parent_linked he
    refine ⟨hln, ?_⟩
    rintro hup
    have hnn := hnil (isDirectory_of_linked (hup ▸ hln)) key hup
    simp [hnn] at he
  have hky : old ≠ new := by
    rintro rfl
    exact hne (Option.some.inj (hnew.symm.trans hold))
  refine (hwf.remove hnew hnil).move (entry_remove.mpr ⟨hky, hold⟩)
    ?_ (linked_remove hwf hnew (hgt hnew).2 (hgt hnew).1) ?_
  · rw [eq_none_iff_forall_ne_some]
    intro name hnm
    exact (entry_remove.mp hnm).1 rfl
  · intro hdr
    rw [isDirectory_remove] at hdr
    refine (houtside hdr).transport
      (fun name => layout.Linked name ∧ name ≠ replaced)
      (fun _ hrt => .base hrt) ?_ (hgt hnew)
    intro key name ⟨_, ho⟩ he
    obtain ⟨hnm, htg⟩ := entry_without.mp he
    refine .inl ⟨entry_without.mpr ⟨entry_remove.mpr ⟨?_, hnm⟩, htg⟩, hgt hnm⟩
    rintro rfl
    exact ho (Option.some.inj (hnm.symm.trans hnew))

end Compose

end Changes

/-! ## What well-formed trees are -/

section Formed

variable {parent : K → N} {root : N} {layout : Layout K N}

/-- `above` holds an entry that names `below`. -/
def Up (parent : K → N) (layout : Layout K N) (below above : N) : Prop :=
  ∃ key, layout.entry key = some below ∧ parent key = above

lemma Reaches.ways (hreach : layout.Reaches parent (· = root) name) :
    Relation.ReflTransGen (layout.Up parent) name root := by
  induction hreach with
  | base hbs => exact hbs ▸ .refl
  | step he _ ih => exact .head ⟨_, he, rfl⟩ ih

lemma WellFormed.rooted (hwf : WellFormed parent root layout none) {name}
    (hlink : layout.Linked name) : layout.Reaches parent (· = root) name := by
  refine (hwf.reaches hlink).mono ?_ fun _ _ he => he
  rintro base (hrt | hlo)
  · exact .base hrt
  · cases hlo

lemma WellFormed.acyclic (hwf : WellFormed parent root layout none) (name) :
    ¬ Relation.TransGen (layout.Up parent) name name := by
  have hln : ∀ {below above}, Relation.TransGen (layout.Up parent) below above →
      layout.Linked above := by
    intro below above hwy
    cases hwy with
    | single hup | tail _ hup =>
      obtain ⟨key, he, rfl⟩ := hup
      exact hwf.parent_linked he
  intro hcy
  have hre := hwf.rooted (hln hcy)
  induction hre with
  | base hbs =>
    subst hbs
    obtain ⟨_, ⟨key, he, _⟩, _⟩ := Relation.TransGen.head'_iff.mp hcy
    exact hwf.root_unnamed key he
  | @step key name he _ ih =>
    apply ih
    obtain ⟨_, ⟨other, ho, rfl⟩, hr⟩ := Relation.TransGen.head'_iff.mp hcy
    cases hwf.single (isDirectory_of_linked (hln hcy)) ho he
    exact Relation.TransGen.tail' hr ⟨key, he, rfl⟩

end Formed

end Layout

end AgentDx.LinkTree
