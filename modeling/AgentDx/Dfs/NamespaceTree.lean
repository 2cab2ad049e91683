import AgentDx.Lib.LinkTree
import AgentDx.Dfs.NamespaceTxn

/-!
# The directory tree

The entries and inodes of a store form a tree with counted links.  Every
namespace transaction pins the records it changes, so what it commits is one of
the changes of the tree, whatever the states it was prepared from.
-/

namespace AgentDx.Dfs

open Store Client Std Word LinkTree Option

/-! ## The tree of a state -/

def inodeAt (state : State) (inodeId : InodeId) : Option InodeRecord :=
  match state.entity? (.dfsInode inodeId) with
  | some (.dfsInode inode) => some inode
  | _ => none

/-- The inode an entry points to. -/
def dentryAt (state : State) (key : DentryKey) : Option InodeId :=
  match state.entity? (.dfsDentry key) with
  | some (.dfsDentry dentry) => some dentry.inodeId
  | _ => none

def nodeOf (inode : InodeRecord) : Node :=
  ⟨decide (inode.kind = .directory), inode.attributes.nlink⟩

def layoutOf (state : State) : Layout DentryKey InodeId where
  node inodeId := (inodeAt state inodeId).map nodeOf
  entry := dentryAt state

/-- Entries stay within the namespace of their directory and of what they point
to. -/
structure Homes (state : State) : Prop where
  target : ∀ {key inodeId}, dentryAt state key = some inodeId →
    ∃ inode ∈ inodeAt state inodeId, inode.namespaceId = key.namespaceId
  parent : ∀ {key inodeId}, dentryAt state key = some inodeId →
    ∃ inode ∈ inodeAt state key.parentInodeId, inode.namespaceId = key.namespaceId

structure NamespaceTree (state : State) : Prop where
  keyed : WellKeyed state
  formed : (layoutOf state).WellFormed DentryKey.parentInodeId "1" none
  homes : Homes state

/-- No link count has reached the saturation of its 32-bit counter. -/
def Unsaturated (state : State) : Prop :=
  ∀ inodeId, ∀ inode ∈ inodeAt state inodeId, inode.attributes.nlink + 1 < 2 ^ 32

variable {state next : State}

lemma dentryAt_eq_some (hput : state.entity? (.dfsDentry dentry.key) = some (.dfsDentry dentry)) :
    dentryAt state dentry.key = some dentry.inodeId := by
  rw [dentryAt, hput]

variable {inode : InodeRecord} {inodeId : InodeId} {key : DentryKey}

section Pins

variable {txn : MetaTxn} (hcom : Commits state txn next)
include hcom

lemma inodeAt_of_pin (hcond : pinInode inode ∈ txn.conditions) :
    inodeAt state inode.inodeId = some inode := by
  have hput := hcom.entityEquals hcond
  rw [entityKey] at hput
  rw [inodeAt, hput]

lemma dentryAt_of_pin (hcond : pinDentry dentry ∈ txn.conditions) :
    dentryAt state dentry.key = some dentry.inodeId :=
  dentryAt_eq_some (hcom.entityEquals hcond)

lemma inodeAt_of_missing (hcond : .missing (.dfsInode inodeId) ∈ txn.conditions) :
    inodeAt state inodeId = none := by
  rw [inodeAt, hcom.missing hcond]

lemma dentryAt_of_missing (hcond : .missing (.dfsDentry key) ∈ txn.conditions) :
    dentryAt state key = none := by
  rw [dentryAt, hcom.missing hcond]

end Pins

lemma node_layoutOf (hino : inodeAt state inodeId = some inode) :
    (layoutOf state).node inodeId = some (nodeOf inode) := by
  simp [layoutOf, hino]

lemma isDirectory_layoutOf (hino : inodeAt state inodeId = some inode) :
    (layoutOf state).isDirectory inodeId = decide (inode.kind = .directory) := by
  simp [Layout.isDirectory, node_layoutOf hino, nodeOf]

lemma ParentOf.linked_layoutOf (hup : ParentOf key parent)
    (hino : inodeAt state parent.inodeId = some parent) :
    (layoutOf state).Linked key.parentInodeId := by
  rw [hup.inode_eq] at hino
  exact ⟨nodeOf parent, node_layoutOf hino, by simp [nodeOf, hup.kind_eq], hup.linked⟩

/-! ## The conditions on the tree -/

variable {txn : MetaTxn} {namespaceId : NamespaceId}

lemma dentryAt_of_directoryEmpty (hcom : Commits state txn next) (hkeys : WellKeyed state)
    (hcond : .dfsDirectoryEmpty namespaceId inodeId ∈ txn.conditions)
    (hspace : key.namespaceId = namespaceId)
    (hup : key.parentInodeId = inodeId) : dentryAt state key = none := by
  obtain ⟨_, hmatch⟩ := hcom.matched _ hcond
  simp only [conditionMatches, dfsDirectoryIsEmpty, Bool.not_eq_eq_eq_not,
    Bool.not_true, List.any_eq_false] at hmatch
  unfold dentryAt
  split
  next dentry hput =>
    have hown : dentry.key = key := by
      simpa [entityKey] using hkeys _ _ hput (.inl rfl)
    obtain ⟨versioned, hver, hent⟩ := map_eq_some_iff.mp hput
    have hval := OrderedMap.mem_values.mpr ⟨_, hver⟩
    have hnot := hmatch versioned hval
    simp [hent, hown, hspace, hup] at hnot
  · rfl

/-- A directory found empty has no entries at all: none is of another
namespace. -/
lemma NamespaceTree.entry_eq_none (htree : NamespaceTree state)
    (hcom : Commits state txn next) (hino : inodeAt state inode.inodeId = some inode)
    (hcond : .dfsDirectoryEmpty inode.namespaceId inode.inodeId ∈
      txn.conditions) (hup : key.parentInodeId = inode.inodeId) :
    (layoutOf state).entry key = none := by
  rw [eq_none_iff_forall_ne_some]
  intro name hrow
  obtain ⟨same, heq, hhome⟩ := htree.homes.parent hrow
  rw [hup] at heq
  cases mem_unique hino heq
  have hnil := dentryAt_of_directoryEmpty hcom htree.keyed hcond hhome.symm hup
  rw [show (layoutOf state).entry key = dentryAt state key from rfl, hnil] at hrow
  cases hrow

lemma NamespaceTree.parent_ne (htree : NamespaceTree state)
    (hrow : dentryAt state key = some inodeId) : key.parentInodeId ≠ inodeId := by
  rintro rfl
  exact htree.formed.acyclic _ (.single ⟨key, hrow, rfl⟩)

lemma dfsParentOf_eq_some (hkeys : WellKeyed state)
    (hup : dfsParentOf state namespaceId inodeId = some parent) :
    ∃ key, dentryAt state key = some inodeId ∧ key.parentInodeId = parent ∧
      key.namespaceId = namespaceId := by
  obtain ⟨versioned, hval, hget⟩ := List.exists_of_findSome?_eq_some hup
  obtain ⟨stored, hput⟩ := OrderedMap.mem_values.mp hval
  split at hget
  next dentry hent =>
    split at hget
    next hmatch =>
      have hrow : state.entity? stored = some (.dfsDentry dentry) := by
        simp [State.entity?, hput, hent]
      have hown : .dfsDentry dentry.key = stored := hkeys _ _ hrow (.inr rfl)
      subst hown
      refine ⟨dentry.key, ?_, Option.some.inj hget, hmatch.1⟩
      rw [dentryAt_eq_some hrow, hmatch.2]
    · cases hget
  · cases hget

lemma dfsParentOf_eq_none (hkeys : WellKeyed state)
    (hup : dfsParentOf state key.namespaceId inodeId = none) :
    dentryAt state key ≠ some inodeId := by
  intro hrow
  unfold dentryAt at hrow
  split at hrow
  next dentry hput =>
    have hown : dentry.key = key := by
      simpa [entityKey] using hkeys _ _ hput (.inl rfl)
    obtain ⟨versioned, hver, hent⟩ := map_eq_some_iff.mp hput
    have hval := OrderedMap.mem_values.mpr ⟨_, hver⟩
    have hnot := List.findSome?_eq_none_iff.mp hup versioned hval
    simp [hent, hown, Option.some.inj hrow] at hnot
  · cases hrow

lemma reaches_of_ancestorWalk (htree : NamespaceTree state) (fuel seen current)
    (hlink : (layoutOf state).Linked current) (hfrom : current ≠ source)
    (hhome : ∀ inode ∈ inodeAt state current, inode.namespaceId = namespaceId)
    (hwalk : dfsAncestorWalk state namespaceId source fuel seen current = false) :
    ((layoutOf state).without source).Reaches DentryKey.parentInodeId (· = "1")
      current := by
  induction fuel generalizing seen current with
  | zero => cases hwalk
  | succ fuel ih =>
    unfold dfsAncestorWalk at hwalk
    split at hwalk
    · cases hwalk
    · split at hwalk
      next hup =>
        by_cases hroot : current = "1"
        · exact .base hroot
        · obtain ⟨key, hrow⟩ := htree.formed.named hlink hroot (by simp)
          obtain ⟨inode, hino, hns⟩ := htree.homes.target hrow
          rw [← hhome inode hino, hns] at hup
          exact absurd hrow (dfsParentOf_eq_none htree.keyed hup)
      next parent hup =>
        obtain ⟨key, hrow, rfl, hns⟩ := dfsParentOf_eq_some htree.keyed hup
        have hkept : ((layoutOf state).without source).entry key =
            some current := Layout.entry_without.mpr ⟨hrow, hfrom⟩
        split at hwalk
        · cases hwalk
        next hother =>
          split at hwalk
          next hroot =>
            exact .step hkept (.base hroot)
          · refine .step hkept (ih _ _ (htree.formed.parent_linked hrow) hother ?_ hwalk)
            intro inode hino
            obtain ⟨same, heq, hhome⟩ := htree.homes.parent hrow
            cases mem_unique hino heq
            exact hhome.trans hns

lemma reaches_of_notDescendant
    (hcom : Commits state txn next) (htree : NamespaceTree state) (hup : ParentOf key parent)
    (hino : inodeAt state parent.inodeId = some parent)
    (hcond : .dfsNotDescendant key.namespaceId source key.parentInodeId ∈ txn.conditions) :
    ((layoutOf state).without source).Reaches DentryKey.parentInodeId (· = "1")
      key.parentInodeId := by
  obtain ⟨_, hmatch⟩ := hcom.matched _ hcond
  simp only [conditionMatches, dfsIsDescendantOrSame, Bool.not_eq_eq_eq_not,
    Bool.not_true] at hmatch
  split at hmatch
  · cases hmatch
  next hfrom =>
    refine reaches_of_ancestorWalk htree _ _ _ (hup.linked_layoutOf hino) (Ne.symm hfrom) ?_ hmatch
    intro inode heq
    rw [hup.inode_eq] at hino
    cases mem_unique hino heq
    exact hup.namespace_eq

end AgentDx.Dfs
