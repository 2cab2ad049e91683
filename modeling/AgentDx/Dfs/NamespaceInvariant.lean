import AgentDx.Dfs.NamespaceTree

/-!
# Every commit keeps the tree

A committed namespace transaction attaches, detaches, moves or replaces an entry
of the tree, or gives birth to a node and attaches it.  Over any interleaving of
the operations, the published states therefore all hold a tree.
-/

namespace AgentDx.Dfs

open Store Client Std Word LinkTree List Layout

variable {state next : State} {txn : MetaTxn}

/-! ## Link counts -/

lemma adjustLinks_zero (hroom : nlink + 1 < 2 ^ 32) : adjustLinks nlink 0 = nlink := by
  have h : min (nlink + 0) (2 ^ 32 - 1) = nlink := by omega
  exact h

lemma adjustLinks_one (hroom : nlink + 1 < 2 ^ 32) : adjustLinks nlink 1 = nlink + 1 := by
  simp only [adjustLinks, zero_le_one, if_true, Int.toNat_one]
  omega

lemma adjustLinks_neg_one (nlink) : adjustLinks nlink (-1) = nlink - 1 :=
  rfl

lemma relinked_inodeId (inode nlink time) : (relinked inode nlink time).inodeId = inode.inodeId :=
  rfl

lemma NewLinks.cases (hlinks : NewLinks (· = 1) kind nlink delta) :
    kind = .directory ∧ nlink = 2 ∧ delta = 1 ∨ kind ≠ .directory ∧ nlink = 1 ∧ delta = 0 := by
  cases hlinks with
  | directory => exact .inl ⟨rfl, rfl, rfl⟩
  | regular h => exact .inr ⟨by simp, h, rfl⟩
  | symlink | special => exact .inr ⟨by simp, rfl, rfl⟩

/-! ## Reading the next state -/

/-- The inode an entity is. -/
def asInode : Option MetaEntity → Option InodeRecord
  | some (.dfsInode inode) => some inode
  | _ => none

/-- The inode an entity points to. -/
def asDentry : Option MetaEntity → Option InodeId
  | some (.dfsDentry dentry) => some dentry.inodeId
  | _ => none

lemma inodeAt_commits (hcom : Commits state txn next) (inodeId) :
    inodeAt next inodeId = asInode (leavesAll txn.mutations (.dfsInode inodeId)
      (state.entity? (.dfsInode inodeId))) := by
  rw [← hcom.entity?]
  rfl

lemma dentryAt_commits (hcom : Commits state txn next) (key) :
    dentryAt next key = asDentry (leavesAll txn.mutations (.dfsDentry key)
      (state.entity? (.dfsDentry key))) := by
  rw [← hcom.entity?]
  rfl

/-- What an inode or an entry holds after inodes and entries were written. -/
lemma asInode_ite (found : Prop) [Decidable found] (inode held) :
    asInode (if found then some (.dfsInode inode) else held) =
      if found then some inode else asInode held := by
  split <;> rfl

lemma asDentry_ite (found : Prop) [Decidable found] (dentry held) :
    asDentry (if found then some (.dfsDentry dentry) else held) =
      if found then some dentry.inodeId else asDentry held := by
  split <;> rfl

lemma asDentry_ite_none (found : Prop) [Decidable found] (held) :
    asDentry (if found then none else held) = if found then none else asDentry held := by
  split <;> rfl

lemma Homes.step (hhomes : Homes state) (hinos : ∀ inodeId, ∀ inode ∈ inodeAt state inodeId,
      ∃ later ∈ inodeAt next inodeId, later.namespaceId = inode.namespaceId)
    (hents : ∀ key inodeId, dentryAt next key = some inodeId → dentryAt state key = some inodeId ∨
      (∃ inode ∈ inodeAt next inodeId, inode.namespaceId = key.namespaceId) ∧
        ∃ inode ∈ inodeAt state key.parentInodeId,
          inode.namespaceId = key.namespaceId) : Homes next where
  target := by
    intro key inodeId he
    rcases hents key inodeId he with hol | ⟨hnw, _⟩
    · obtain ⟨inode, hin, hns⟩ := hhomes.target hol
      obtain ⟨later, hlt, heq⟩ := hinos inodeId inode hin
      exact ⟨later, hlt, heq.trans hns⟩
    · exact hnw
  parent := by
    intro key inodeId he
    have hup : ∃ inode ∈ inodeAt state key.parentInodeId, inode.namespaceId = key.namespaceId := by
      rcases hents key inodeId he with hol | ⟨_, hnw⟩
      · exact hhomes.parent hol
      · exact hnw
    obtain ⟨inode, hin, hns⟩ := hup
    obtain ⟨later, hlt, heq⟩ := hinos key.parentInodeId inode hin
    exact ⟨later, hlt, heq.trans hns⟩

lemma home_ite {rest : Option InodeRecord} (hpin : inodeAt state pinned.inodeId = some pinned)
    (hwritten : written.namespaceId = pinned.namespaceId) (hget : found ∈ inodeAt state inodeId)
    (hrest : ∃ later ∈ rest, later.namespaceId = found.namespaceId) :
    ∃ later ∈ (if pinned.inodeId = inodeId then some written else rest),
      later.namespaceId = found.namespaceId := by
  split
  next heq =>
    subst heq
    cases Option.mem_unique hpin hget
    exact ⟨written, rfl, hwritten⟩
  · exact hrest

lemma ParentOf.home (hup : ParentOf key parent)
    (hpin : inodeAt state parent.inodeId = some parent) :
    ∃ inode ∈ inodeAt state key.parentInodeId, inode.namespaceId = key.namespaceId :=
  ⟨parent, hup.inode_eq ▸ hpin, hup.namespace_eq⟩

/-! ## New inodes -/

section Child

variable {request : RequestKey} {operation : StoreOperation}
variable {parent inode : InodeRecord} {delta : ℤ} {time : ℕ} {key : DentryKey}
variable {more : List MetaEntity} {result : OperationResult}

lemma inodeAt_childTxn
    (hcom : Commits state (childTxn request operation parent
      (changedParent parent delta time) inode key more result) next)
    (hmore : more = [] ∨ ∃ lease : WriteLease, more = [.dfsWriteLease lease]) (inodeId) :
      inodeAt next inodeId = if inode.inodeId = inodeId then some inode
      else if parent.inodeId = inodeId then
        some (changedParent parent delta time)
      else inodeAt state inodeId := by
  rw [inodeAt_commits hcom]
  rcases hmore with rfl | ⟨lease, rfl⟩ <;>
    simp [childTxn, serviceTxn, putInode, putDentry, entityKey, asInode_ite, changedParent] <;> rfl

lemma dentryAt_childTxn
    (hcom : Commits state (childTxn request operation parent
      (changedParent parent delta time) inode key more result) next)
    (hmore : more = [] ∨ ∃ lease : WriteLease, more = [.dfsWriteLease lease]) (other) :
      dentryAt next other =
      if other = key then some inode.inodeId else dentryAt state other := by
  rw [dentryAt_commits hcom]
  rcases hmore with rfl | ⟨lease, rfl⟩ <;>
    simp [childTxn, serviceTxn, putInode, putDentry, entityKey, asDentry_ite, eq_comm] <;> rfl

lemma NamespaceTree.child (htree : NamespaceTree state) (hroom : Unsaturated state)
    (hcom : Commits state (childTxn request operation parent
      (changedParent parent delta time) inode key more result) next)
    (hup : ParentOf key parent) (hspace : inode.namespaceId = key.namespaceId)
    (hlinks : NewLinks (· = 1) inode.kind inode.attributes.nlink delta)
    (hmore : more = [] ∨ ∃ lease : WriteLease, more = [.dfsWriteLease lease]) :
    NamespaceTree next := by
  have hin := inodeAt_childTxn hcom hmore
  have hen := dentryAt_childTxn hcom hmore
  have hpn : inodeAt state parent.inodeId = some parent :=
    inodeAt_of_pin hcom (by simp [childTxn, serviceTxn])
  have hfr : dentryAt state key = none := dentryAt_of_missing hcom (by simp [childTxn, serviceTxn])
  have hf : inodeAt state inode.inodeId = none :=
    inodeAt_of_missing hcom (by simp [childTxn, serviceTxn])
  have hne : parent.inodeId ≠ inode.inodeId := by
    intro heq
    rw [heq, hf] at hpn
    cases hpn
  have hbd := hroom _ _ hpn
  have hbr := htree.formed.birth (decide (inode.kind = .directory))
    (show (layoutOf state).node inode.inodeId = none by simp [layoutOf, hf])
  have hly : layoutOf next = ((layoutOf state).birth inode.inodeId
      (decide (inode.kind = .directory))).attach DentryKey.parentInodeId key
        inode.inodeId := by
    have hch : ((layoutOf state).birth inode.inodeId
        (decide (inode.kind = .directory))).charge DentryKey.parentInodeId key inode.inodeId =
        if inode.kind = .directory then parent.inodeId else inode.inodeId := by
      simp [Layout.charge, Layout.isDirectory, Layout.birth, hup.inode_eq]
    apply Layout.ext
    · funext inodeId
      rw [node_attach hch]
      by_cases hnw : inodeId = inode.inodeId
      · subst hnw
        rcases hlinks.cases with ⟨hkn, hc, _⟩ | ⟨hkn, hc, _⟩
        · simp [layoutOf, hin, Layout.birth, hkn, hne.symm, nodeOf, hc, Node.own]
        · simp [layoutOf, hin, Layout.birth, hkn, nodeOf, hc, Node.own]
      · by_cases hol : inodeId = parent.inodeId
        · subst hol
          rcases hlinks.cases with ⟨hkn, _, rfl⟩ | ⟨hkn, _, rfl⟩
          · simp [layoutOf, hin, Layout.birth, hkn, hne, hne.symm, hpn,
              nodeOf, changedParent, adjustLinks_one hbd]
          · simp [layoutOf, hin, Layout.birth, hkn, hne, hne.symm, hpn,
              nodeOf, changedParent, adjustLinks_zero hbd]
        · have hcg : inodeId ≠ if inode.kind = .directory then parent.inodeId
              else inode.inodeId := by
            split <;> assumption
          rw [if_neg hcg]
          simp [layoutOf, hin, Layout.birth, hnw, Ne.symm hnw, Ne.symm hol]
    · funext other
      simp [layoutOf, hen, Layout.attach, Layout.setEntry, Layout.birth]
  refine ⟨htree.keyed.commits hcom, ?_, ?_⟩
  · rw [hly]
    refine hbr.attach ⟨hfr, ?_, ?_, ?_, ?_⟩
    · exact (linked_birth_iff (by simp [layoutOf, hf])).mpr (.inl (hup.linked_layoutOf hpn))
    · simp [Layout.birth]
    · intro hdr
      have hkn : inode.kind = .directory := by
        simpa [Layout.isDirectory, Layout.birth] using hdr
      refine ⟨by simp [hkn], ?_⟩
      exact (htree.formed.rooted (hup.linked_layoutOf hpn)).mono
        (fun _ hrt => .base hrt) fun _ _ he => he
    · intro hfl
      have hkn : inode.kind ≠ .directory := by
        simpa [Layout.isDirectory, Layout.birth] using hfl
      simp [hkn]
  · refine htree.homes.step ?_ ?_
    · intro inodeId found hfn
      rw [hin]
      have ho : inode.inodeId ≠ inodeId := by
        rintro rfl
        rw [hf] at hfn
        cases hfn
      rw [if_neg ho]
      exact home_ite hpn rfl hfn ⟨found, hfn, rfl⟩
    · intro other inodeId he
      rw [hen] at he
      split at he
      next hky =>
        subst hky
        cases he
        refine .inr ⟨⟨inode, ?_, hspace⟩, hup.home hpn⟩
        simp [hin]
      · exact .inl he

end Child

/-! ## Links -/

section Link

variable {request : RequestKey} {parent original : InodeRecord}
variable {linkedAt time : ℕ} {key : DentryKey} {digest : Digest}

lemma NamespaceTree.link (htree : NamespaceTree state) (hroom : Unsaturated state)
    (hcom : Commits state (linkTxn request parent (changedParent parent 0 time) original
      (relinked original (adjustLinks original.attributes.nlink 1) linkedAt) key digest) next)
    (hup : ParentOf key parent) (hspace : original.namespaceId = key.namespaceId)
    (hkind : original.kind ≠ .directory) : NamespaceTree next := by
  have hin : ∀ inodeId, inodeAt next inodeId = if original.inodeId = inodeId then
        some (relinked original (adjustLinks original.attributes.nlink 1) linkedAt)
      else if parent.inodeId = inodeId then some (changedParent parent 0 time)
      else inodeAt state inodeId := by
    intro inodeId
    rw [inodeAt_commits hcom]
    simp [linkTxn, serviceTxn, putInode, putDentry, entityKey, asInode_ite, changedParent, relinked]
    rfl
  have hen : ∀ other, dentryAt next other =
      if other = key then some original.inodeId else dentryAt state other := by
    intro other
    rw [dentryAt_commits hcom]
    simp [linkTxn, serviceTxn, putInode, putDentry, entityKey, asDentry_ite, eq_comm]
    rfl
  have hpn : inodeAt state parent.inodeId = some parent :=
    inodeAt_of_pin hcom (by simp [linkTxn, serviceTxn])
  have hor : inodeAt state original.inodeId = some original :=
    inodeAt_of_pin hcom (by simp [linkTxn, serviceTxn])
  have hfr : dentryAt state key = none := dentryAt_of_missing hcom (by simp [linkTxn, serviceTxn])
  have hne : parent.inodeId ≠ original.inodeId := by
    intro heq
    rw [heq, hor] at hpn
    cases hpn
    exact hkind hup.kind_eq
  have hfl : (layoutOf state).isDirectory original.inodeId = false := by
    simp [isDirectory_layoutOf hor, hkind]
  have hly : layoutOf next = (layoutOf state).attach
      DentryKey.parentInodeId key original.inodeId := by
    have hch : (layoutOf state).charge DentryKey.parentInodeId key
        original.inodeId = original.inodeId := by
      simp [Layout.charge, hfl]
    apply Layout.ext
    · funext inodeId
      rw [node_attach hch]
      by_cases hsm : inodeId = original.inodeId
      · subst hsm
        simp [layoutOf, hin, hor, nodeOf, relinked, adjustLinks_one (hroom _ _ hor)]
      · by_cases hol : inodeId = parent.inodeId
        · subst hol
          simp [layoutOf, hin, hne, hne.symm, hpn, nodeOf, changedParent,
            adjustLinks_zero (hroom _ _ hpn)]
        · simp [layoutOf, hin, hsm, Ne.symm hsm, Ne.symm hol]
    · funext other
      simp [layoutOf, hen, Layout.attach, Layout.setEntry]
  refine ⟨htree.keyed.commits hcom, ?_, htree.homes.step ?_ ?_⟩
  · rw [hly]
    refine htree.formed.attach ⟨hfr, hup.linked_layoutOf hpn, ?_, ?_, fun _ => rfl⟩
    · simp [layoutOf, hor]
    · simp [hfl]
  · intro inodeId found hfn
    rw [hin]
    exact home_ite hor rfl hfn (home_ite hpn rfl hfn ⟨found, hfn, rfl⟩)
  · intro other inodeId he
    rw [hen] at he
    split at he
    next hky =>
      subst hky
      cases he
      refine .inr ⟨?_, hup.home hpn⟩
      rw [hin, if_pos rfl]
      exact ⟨_, rfl, hspace⟩
    · exact .inl he

end Link

/-! ## Removal -/

section Remove

variable {request : RequestKey} {directory : Bool} {key : DentryKey}
variable {dentry : Dentry} {original parent : InodeRecord} {removedAt time : ℕ}
variable {digest : Digest}

lemma NamespaceTree.remove (htree : NamespaceTree state) (hroom : Unsaturated state)
    (hcom : Commits state (removeTxn request directory key dentry original
      (relinked original (removedLinks directory original.attributes.nlink) removedAt) parent
      (changedParent parent (if directory then -1 else 0) time) digest) next)
    (hup : ParentOf key parent) (hkey : dentry.key = key)
    (hino : original.inodeId = dentry.inodeId) (hspace : original.namespaceId = key.namespaceId)
    (hkind : original.kind = .directory ↔ directory = true) : NamespaceTree next := by
  have hin : ∀ inodeId, inodeAt next inodeId = if parent.inodeId = inodeId then
        some (changedParent parent (if directory then -1 else 0) time)
      else if original.inodeId = inodeId then
        some (relinked original (removedLinks directory original.attributes.nlink) removedAt)
      else inodeAt state inodeId := by
    intro inodeId
    rw [inodeAt_commits hcom]
    simp [removeTxn, serviceTxn, putInode, entityKey, asInode_ite, changedParent, relinked]
    rfl
  have hen : ∀ other, dentryAt next other = if other = key then none else dentryAt state other := by
    intro other
    rw [dentryAt_commits hcom]
    simp [removeTxn, serviceTxn, putInode, entityKey, asDentry_ite_none, eq_comm]
    rfl
  have hpn : inodeAt state parent.inodeId = some parent :=
    inodeAt_of_pin hcom (by simp [removeTxn, serviceTxn])
  have hor : inodeAt state original.inodeId = some original :=
    inodeAt_of_pin hcom (by simp [removeTxn, serviceTxn])
  have he : dentryAt state key = some original.inodeId := by
    rw [hino, ← hkey]
    exact dentryAt_of_pin hcom (by simp [removeTxn, serviceTxn])
  have hdr : (layoutOf state).isDirectory original.inodeId = directory := by
    rw [isDirectory_layoutOf hor]
    cases directory <;> simpa using hkind
  have hem : (layoutOf state).isDirectory original.inodeId = true →
      ∀ other, DentryKey.parentInodeId other = original.inodeId →
        (layoutOf state).entry other = none := by
    intro hdi other ho
    rw [hdr] at hdi
    apply htree.entry_eq_none hcom hor _ ho
    simp [removeTxn, serviceTxn, hdi, hspace]
  have hne : parent.inodeId ≠ original.inodeId := by
    rw [hup.inode_eq]
    exact htree.parent_ne he
  have hly : layoutOf next = (layoutOf state).remove
      DentryKey.parentInodeId key original.inodeId := by
    apply Layout.ext
    · funext inodeId
      cases directory with
      | true =>
        rw [node_remove_directory hdr, ← hup.inode_eq]
        by_cases heq : inodeId = original.inodeId
        · subst heq
          simp [layoutOf, hin, hor, nodeOf, relinked, hne, removedLinks]
        · by_cases hol : inodeId = parent.inodeId
          · subst hol
            simp [layoutOf, hin, hne, hpn, nodeOf, changedParent, adjustLinks_neg_one]
          · simp [layoutOf, hin, heq, hol, Ne.symm heq, Ne.symm hol]
      | false =>
        rw [node_remove_file hdr]
        by_cases heq : inodeId = original.inodeId
        · subst heq
          simp [layoutOf, hin, hor, nodeOf, relinked, hne, removedLinks]
        · by_cases hol : inodeId = parent.inodeId
          · subst hol
            simp [layoutOf, hin, hne, hpn, nodeOf, changedParent, adjustLinks_zero (hroom _ _ hpn)]
          · simp [layoutOf, hin, heq, Ne.symm heq, Ne.symm hol]
    · funext other
      rw [remove_entry]
      exact hen other
  refine ⟨htree.keyed.commits hcom, ?_, htree.homes.step ?_ ?_⟩
  · rw [hly]
    exact htree.formed.remove he hem
  · intro inodeId found hfn
    rw [hin]
    exact home_ite hpn rfl hfn (home_ite hor rfl hfn ⟨found, hfn, rfl⟩)
  · intro other inodeId ho
    rw [hen] at ho
    split at ho
    · cases ho
    · exact .inl ho

end Remove

/-! ## Renaming -/

section Rename

/-- The inode found after the parents were written back. -/
def writtenParents (changes : List ParentChange) (inodeId : InodeId)
    (held : Option InodeRecord) : Option InodeRecord :=
  changes.foldl (fun held change => if change.parent.inodeId = inodeId then
    some (changedParent change.parent change.delta change.time) else held) held

lemma asInode_parents (changes : List ParentChange) (inodeId held) :
    asInode (leavesAll (changes.map ParentChange.put) (.dfsInode inodeId) held) =
      writtenParents changes inodeId (asInode held) := by
  induction changes generalizing held with
  | nil => rfl
  | cons change changes ih =>
    rw [map_cons, leavesAll_cons, ih]
    simp only [ParentChange.put, putInode, leaves_putEntity, entityKey,
      asInode_ite, writtenParents, foldl_cons, MetaKey.dfsInode.injEq]
    rfl

lemma asDentry_parents (changes : List ParentChange) (key held) :
    leavesAll (changes.map ParentChange.put) (.dfsDentry key) held = held := by
  apply leavesAll_of_targets
  intro mutation h
  obtain ⟨change, _, rfl⟩ := mem_map.mp h
  simp [ParentChange.put, putInode, entityKey]

variable {request : RequestKey} {dentry : Dentry}
variable {source renamed : InodeRecord} {oldKey newKey : DentryKey}
variable {parents : List ParentChange} {digest : Digest}

/-- The inode found after the replaced one was written back. -/
def writtenReplaced (replaced : Option Replaced) (inodeId : InodeId)
    (held : Option InodeRecord) : Option InodeRecord :=
  match replaced with
  | none => held
  | some target =>
    if target.removed.inodeId = inodeId then some target.removed else held

lemma inodeAt_renameTxn
    (hcom : Commits state
      (renameTxn request dentry source renamed oldKey newKey replaced parents digest) next)
    (inodeId) : inodeAt next inodeId = writtenParents parents inodeId
      (if renamed.inodeId = inodeId then some renamed
      else writtenReplaced replaced inodeId (inodeAt state inodeId)) := by
  rw [inodeAt_commits hcom]
  cases replaced with
  | none | some target =>
    simp [renameTxn, serviceTxn, putInode, putDentry, entityKey, asInode_ite, asInode_parents]
    rfl

lemma dentryAt_renameTxn
    (hcom : Commits state
      (renameTxn request dentry source renamed oldKey newKey replaced parents digest) next)
    (hswap : ∀ target ∈ replaced, target.dentry.key = newKey) (other) :
      dentryAt next other = if other = newKey then some source.inodeId
      else if other = oldKey then none
      else dentryAt state other := by
  rw [dentryAt_commits hcom]
  cases replaced with
  | none =>
    simp [renameTxn, serviceTxn, putInode, putDentry, entityKey, asDentry_ite,
      asDentry_ite_none, asDentry_parents, eq_comm]
    rfl
  | some target =>
    have htg := hswap target rfl
    by_cases hnw : newKey = other
    · simp [renameTxn, serviceTxn, putInode, putDentry, entityKey,
        asDentry_parents, htg, hnw, asDentry]
    · by_cases hol : oldKey = other
      · simp [renameTxn, serviceTxn, putInode, putDentry, entityKey,
          asDentry_parents, htg, hnw, hol, Ne.symm hnw, asDentry]
      · simp [renameTxn, serviceTxn, putInode, putDentry, entityKey,
          asDentry_parents, htg, hnw, hol, Ne.symm hnw, Ne.symm hol]
        rfl


/-- What a rename relies on in the state that decides it: the entry and its
inode, and the directories the entry leaves and enters. -/
structure Moving (state : State) (source oldParent newParent : InodeRecord)
    (oldKey newKey : DentryKey) : Prop where
  entry : dentryAt state oldKey = some source.inodeId
  found : inodeAt state source.inodeId = some source
  leaves : ParentOf oldKey oldParent
  enters : ParentOf newKey newParent
  foundOld : inodeAt state oldParent.inodeId = some oldParent
  foundNew : inodeAt state newParent.inodeId = some newParent
  outside : (layoutOf state).isDirectory source.inodeId = true →
    ((layoutOf state).without source.inodeId).Reaches DentryKey.parentInodeId
      (· = "1") newKey.parentInodeId

variable {oldParent newParent : InodeRecord} {renamedAt first second : ℕ}

lemma Moving.isDirectory (hmove : Moving state source oldParent newParent oldKey newKey) :
    (layoutOf state).isDirectory source.inodeId = decide (source.kind = .directory) :=
  isDirectory_layoutOf hmove.found

lemma Moving.links_pos (htree : NamespaceTree state)
    (hmove : Moving state source oldParent newParent oldKey newKey)
    (hfile : source.kind ≠ .directory) : 0 < source.attributes.nlink := by
  have hch : (layoutOf state).charge DentryKey.parentInodeId oldKey
      source.inodeId = source.inodeId := by
    simp [Layout.charge, hmove.isDirectory, hfile]
  obtain ⟨hlk, hps⟩ := htree.formed.charge_links hmove.entry (hch.symm ▸ node_layoutOf hmove.found)
  simp only [nodeOf] at hlk
  omega

lemma adjustLinks_sub_toNat (lost : Bool) (hroom : nlink + 1 < 2 ^ 32) :
    adjustLinks nlink (if lost then -1 else 0) = nlink - lost.toNat := by
  cases lost with
  | false => exact adjustLinks_zero hroom
  | true => exact adjustLinks_neg_one nlink

lemma adjustLinks_add_sub_toNat (won lost : Bool) (hroom : nlink + 1 < 2 ^ 32) :
    adjustLinks nlink ((if won then 1 else 0) - (if lost then 1 else 0)) =
      nlink + won.toNat - lost.toNat := by
  cases won with
  | false => cases lost with
    | false => exact adjustLinks_zero hroom
    | true => exact adjustLinks_neg_one nlink
  | true => cases lost with
    | false => exact adjustLinks_one hroom
    | true => exact adjustLinks_zero hroom

lemma Moving.written_nodes (hroom : Unsaturated state)
    (hmove : Moving state source oldParent newParent oldKey newKey)
    (moving replacing inodeId held) :
    (writtenParents (renameParents
        (decide (oldKey.parentInodeId = newKey.parentInodeId)) moving replacing
        oldParent newParent first second) inodeId held).map nodeOf =
      if inodeId = newKey.parentInodeId then
        (if inodeId = oldKey.parentInodeId then
          some ⟨true, oldParent.attributes.nlink - replacing.toNat⟩
        else some ⟨true, newParent.attributes.nlink + moving.toNat - replacing.toNat⟩)
      else if inodeId = oldKey.parentInodeId then
        some ⟨true, oldParent.attributes.nlink - moving.toNat⟩
      else held.map nodeOf := by
  have hro := hroom _ _ hmove.foundOld
  have hrn := hroom _ _ hmove.foundNew
  rw [← hmove.leaves.inode_eq, ← hmove.enters.inode_eq]
  by_cases hpl : oldParent.inodeId = newParent.inodeId
  · by_cases hid : newParent.inodeId = inodeId
    · simp [writtenParents, renameParents, hpl, hid, nodeOf, changedParent,
        hmove.leaves.kind_eq, adjustLinks_sub_toNat _ hro]
    · simp [writtenParents, renameParents, hpl, hid, Ne.symm hid]
  · by_cases hid : newParent.inodeId = inodeId
    · subst hid
      simp [writtenParents, renameParents, hpl, Ne.symm hpl, nodeOf,
        changedParent, hmove.enters.kind_eq, adjustLinks_add_sub_toNat _ _ hrn]
    · by_cases hio : oldParent.inodeId = inodeId
      · subst hio
        simp [writtenParents, renameParents, hpl, Ne.symm hpl, nodeOf,
          changedParent, hmove.leaves.kind_eq, adjustLinks_sub_toNat _ hro]
      · simp [writtenParents, renameParents, hpl, hid, Ne.symm hid, hio, Ne.symm hio]

lemma Moving.node_old (hmove : Moving state source oldParent newParent oldKey newKey) :
    (layoutOf state).node oldKey.parentInodeId = some ⟨true, oldParent.attributes.nlink⟩ := by
  rw [← hmove.leaves.inode_eq, node_layoutOf hmove.foundOld]
  simp [nodeOf, hmove.leaves.kind_eq]

lemma Moving.node_new (hmove : Moving state source oldParent newParent oldKey newKey) :
    (layoutOf state).node newKey.parentInodeId = some ⟨true, newParent.attributes.nlink⟩ := by
  rw [← hmove.enters.inode_eq, node_layoutOf hmove.foundNew]
  simp [nodeOf, hmove.enters.kind_eq]

lemma Moving.file_nodes (hmove : Moving state source oldParent newParent oldKey newKey) (inodeId) :
    (if inodeId = newKey.parentInodeId then
      (if inodeId = oldKey.parentInodeId then
        some ⟨true, oldParent.attributes.nlink - false.toNat⟩
      else some ⟨true, newParent.attributes.nlink + false.toNat - false.toNat⟩)
    else if inodeId = oldKey.parentInodeId then
      some ⟨true, oldParent.attributes.nlink - false.toNat⟩
    else (layoutOf state).node inodeId) = (layoutOf state).node inodeId := by
  split
  next hnw =>
    subst hnw
    split
    next hol =>
      rw [hol, hmove.node_old]
      rfl
    · rw [hmove.node_new]
      rfl
  · split
    next hol =>
      rw [hol, hmove.node_old]
      rfl
    · rfl

lemma Moving.relink_source (htree : NamespaceTree state)
    (hmove : Moving state source oldParent newParent oldKey newKey)
    (hfile : source.kind ≠ .directory) (inodeId) : (if inodeId = source.inodeId then
      ((layoutOf state).node inodeId).map fun node =>
        ⟨node.directory, node.links - 1 + 1⟩
    else (layoutOf state).node inodeId) = (layoutOf state).node inodeId := by
  have hps := hmove.links_pos htree hfile
  split
  next hsr =>
    rw [hsr, node_layoutOf hmove.found]
    simp only [nodeOf, Option.map_some, Option.some.injEq, Node.mk.injEq, true_and]
    omega
  · rfl

lemma Moving.layout_move (htree : NamespaceTree state) (hroom : Unsaturated state)
    (hmove : Moving state source oldParent newParent oldKey newKey)
    (hinos : ∀ inodeId, inodeAt next inodeId = writtenParents
      (renameParents (decide (oldKey.parentInodeId = newKey.parentInodeId))
        (decide (source.kind = .directory)) false oldParent newParent first
        second) inodeId
      (if source.inodeId = inodeId then
        some (relinked source source.attributes.nlink renamedAt)
      else inodeAt state inodeId)) (inodeId) : (layoutOf next).node inodeId = ((layoutOf state).move
      DentryKey.parentInodeId oldKey newKey source.inodeId).node inodeId := by
  have hln := hmove.leaves.linked
  have hbc : oldParent.attributes.nlink - 1 + 1 = oldParent.attributes.nlink := by omega
  have hr : (if source.inodeId = inodeId then
      some (relinked source source.attributes.nlink renamedAt)
      else inodeAt state inodeId).map nodeOf = (layoutOf state).node inodeId := by
    split
    next hid =>
      subst hid
      simp [node_layoutOf hmove.found, nodeOf, relinked]
    · rfl
  have hn : (layoutOf next).node inodeId = (inodeAt next inodeId).map nodeOf :=
    rfl
  rw [hn, hinos, hmove.written_nodes hroom, hr]
  by_cases hkn : source.kind = .directory
  · rw [node_move_directory (by simp [hmove.isDirectory, hkn])]
    split
    next hnw =>
      subst hnw
      split
      next hol =>
        rw [hol, hmove.node_old]
        simp [hbc]
      · rw [hmove.node_new]
        simp [hkn]
    · split
      next hol =>
        subst hol
        rw [hmove.node_old]
        simp [hkn]
      · rfl
  · rw [node_move_file (by simp [hmove.isDirectory, hkn]),
      hmove.relink_source htree hkn, decide_eq_false hkn, hmove.file_nodes]

lemma Moving.layout_replace (htree : NamespaceTree state) (hroom : Unsaturated state)
    (hmove : Moving state source oldParent newParent oldKey newKey)
    (hrow : dentryAt state newKey = some original.inodeId)
    (hget : inodeAt state original.inodeId = some original)
    (hother : original.inodeId ≠ source.inodeId)
    (hkinds : original.kind = .directory ↔ source.kind = .directory)
    (hnil : (layoutOf state).isDirectory original.inodeId = true →
      ∀ key, DentryKey.parentInodeId key = original.inodeId → (layoutOf state).entry key = none)
    (hinos : ∀ inodeId, inodeAt next inodeId = writtenParents
      (renameParents (decide (oldKey.parentInodeId = newKey.parentInodeId))
        (decide (source.kind = .directory))
        (decide (original.kind = .directory)) oldParent newParent first second)
      inodeId
      (if source.inodeId = inodeId then
        some (relinked source source.attributes.nlink renamedAt)
      else if original.inodeId = inodeId then
        some (relinked original
          (removedLinks (decide (original.kind = .directory)) original.attributes.nlink) removedAt)
      else inodeAt state inodeId)) (inodeId) :
    (layoutOf next).node inodeId = (((layoutOf state).remove
      DentryKey.parentInodeId newKey original.inodeId).move
        DentryKey.parentInodeId oldKey newKey source.inodeId).node inodeId := by
  have hnn : newKey.parentInodeId ≠ original.inodeId := htree.parent_ne hrow
  have hdr := isDirectory_layoutOf hget
  have hno : oldKey.parentInodeId ≠ original.inodeId := by
    intro hup
    have hln := htree.formed.parent_linked hmove.entry
    rw [hup] at hln
    have hne : dentryAt state oldKey = none := hnil (isDirectory_of_linked hln) oldKey hup
    cases hne.symm.trans hmove.entry
  have hr : (if source.inodeId = inodeId then
        some (relinked source source.attributes.nlink renamedAt)
      else if original.inodeId = inodeId then
        some (relinked original
          (removedLinks (decide (original.kind = .directory)) original.attributes.nlink) removedAt)
      else inodeAt state inodeId).map nodeOf =
      if inodeId = original.inodeId then
        some ⟨decide (original.kind = .directory),
          removedLinks (decide (original.kind = .directory)) original.attributes.nlink⟩
      else (layoutOf state).node inodeId := by
    by_cases hid : inodeId = original.inodeId
    · simp [hid, hother.symm, nodeOf, relinked]
    · by_cases hsr : source.inodeId = inodeId
      · subst hsr
        simp [hother.symm, node_layoutOf hmove.found, nodeOf, relinked]
      · simp [hid, Ne.symm hid, hsr, layoutOf]
  have hn : (layoutOf next).node inodeId = (inodeAt next inodeId).map nodeOf :=
    rfl
  rw [hn, hinos, hmove.written_nodes hroom, hr]
  by_cases hkn : source.kind = .directory
  · have htg := hkinds.mpr hkn
    have hch : (layoutOf state).charge DentryKey.parentInodeId newKey
        original.inodeId = newKey.parentInodeId := by
      simp [Layout.charge, hdr, htg]
    obtain ⟨hlk, _⟩ := htree.formed.charge_links hrow (hch.symm ▸ hmove.node_new)
    simp only [Node.own, if_true] at hlk
    rw [node_move_directory (by simp [hmove.isDirectory, hkn]),
      node_remove_directory (by simp [hdr, htg])]
    split
    next hnw =>
      subst hnw
      simp only [hnn, if_false, hmove.node_new, Option.map_some]
      split
      next hol =>
        have hsm := hmove.node_old
        rw [← hol, hmove.node_new] at hsm
        simp only [Option.some.injEq, Node.mk.injEq, true_and] at hsm
        simp [htg, ← hsm]
        omega
      · simp [hkn, htg]
        omega
    · split
      next hol =>
        subst hol
        rw [if_neg hno, hmove.node_old]
        simp [hkn]
      · split
        next hid =>
          subst hid
          simp [node_layoutOf hget, nodeOf, htg, removedLinks]
        · rfl
  · have htg : original.kind ≠ .directory := fun heq => hkn (hkinds.mp heq)
    rw [node_move_file (by simp [hmove.isDirectory, hkn]), node_remove_file (by simp [hdr, htg]),
      decide_eq_false hkn, decide_eq_false htg]
    by_cases hid : inodeId = original.inodeId
    · subst hid
      simp [hnn.symm, hno.symm, hother, node_layoutOf hget, nodeOf, removedLinks, htg]
    · rw [if_neg hid, if_neg hid, hmove.relink_source htree hkn, hmove.file_nodes]

lemma mem_conditions_of_mem_parents (hchange : change ∈ parents) :
    pinInode change.parent ∈ (renameTxn request dentry source renamed oldKey
      newKey replaced parents digest).conditions := by
  have h : pinInode change.parent ∈ parents.map ParentChange.pin := mem_map_of_mem hchange
  simp only [renameTxn, serviceTxn, mem_cons, mem_append]
  exact .inr (.inr h)

/-- The directories a rename wrote back were pinned; a rename within one
directory pins it once. -/
lemma rename_landing (hcom : Commits state (renameTxn request dentry source renamed oldKey
      newKey replaced (renameParents
        (decide (oldKey.parentInodeId = newKey.parentInodeId)) moving replacing
        oldParent newParent first second) digest) next)
    (hold : ParentOf oldKey oldParent) (hnew : ParentOf newKey newParent)
    (hspaces : newKey.namespaceId = oldKey.namespaceId) :
    inodeAt state oldParent.inodeId = some oldParent ∧ ∃ landing, ParentOf newKey landing ∧
        inodeAt state landing.inodeId = some landing ∧
        renameParents (decide (oldKey.parentInodeId = newKey.parentInodeId))
          moving replacing oldParent newParent first second =
        renameParents (decide (oldKey.parentInodeId = newKey.parentInodeId))
          moving replacing oldParent landing first second := by
  by_cases hpl : oldKey.parentInodeId = newKey.parentInodeId
  · rw [decide_eq_true hpl] at hcom ⊢
    have hpn : inodeAt state oldParent.inodeId = some oldParent :=
      inodeAt_of_pin hcom (mem_conditions_of_mem_parents (mem_singleton_self _))
    refine ⟨hpn, oldParent, ⟨?_, hold.kind_eq, ?_, hold.linked⟩, hpn, rfl⟩
    · exact hold.inode_eq.trans hpl
    · exact hold.namespace_eq.trans hspaces.symm
  · rw [decide_eq_false hpl] at hcom ⊢
    refine ⟨inodeAt_of_pin hcom (mem_conditions_of_mem_parents
      mem_cons_self), newParent, hnew, ?_, rfl⟩
    exact inodeAt_of_pin hcom (mem_conditions_of_mem_parents (mem_cons_of_mem _ mem_cons_self))

lemma home_parents (hmove : Moving state source oldParent newParent oldKey newKey)
    (hget : found ∈ inodeAt state inodeId)
    (hheld : ∃ later ∈ held, later.namespaceId = found.namespaceId) :
    ∃ later ∈ writtenParents (renameParents
        (decide (oldKey.parentInodeId = newKey.parentInodeId)) moving replacing
        oldParent newParent first second) inodeId held, later.namespaceId = found.namespaceId := by
  have hfs := home_ite hmove.foundOld
    (show (changedParent oldParent (if replacing then -1 else 0)
      first).namespaceId = oldParent.namespaceId from rfl) hget hheld
  have hsn := home_ite hmove.foundNew
    (show (changedParent newParent ((if moving then 1 else 0) -
      (if replacing then 1 else 0)) second).namespaceId = newParent.namespaceId from rfl) hget
    (home_ite hmove.foundOld
      (show (changedParent oldParent (if moving then -1 else 0)
        first).namespaceId = oldParent.namespaceId from rfl) hget hheld)
  by_cases hpl : oldKey.parentInodeId = newKey.parentInodeId
  · rw [decide_eq_true hpl]
    exact hfs
  · rw [decide_eq_false hpl]
    exact hsn

lemma NamespaceTree.rename (htree : NamespaceTree state) (hroom : Unsaturated state)
    (hcom : Commits state (renameTxn request dentry source
      (relinked source source.attributes.nlink renamedAt) oldKey newKey replaced
      (renameParents (decide (oldKey.parentInodeId = newKey.parentInodeId))
        (decide (source.kind = .directory))
        (replaced.any fun target => decide (target.original.kind = .directory))
        oldParent newParent first second) digest) next)
    (hold : ParentOf oldKey oldParent) (hnew : ParentOf newKey newParent)
    (hspaces : newKey.namespaceId = oldKey.namespaceId)
    (hkey : dentry.key = oldKey) (hino : source.inodeId = dentry.inodeId)
    (hspace : source.namespaceId = oldKey.namespaceId)
    (hswap : ∀ target ∈ replaced, ReplacedAt newKey source target) : NamespaceTree next := by
  obtain ⟨hfo, landing, hen, hfn, hpr⟩ := rename_landing hcom hold hnew hspaces
  rw [hpr] at hcom
  have hin := inodeAt_renameTxn hcom
  have hes := dentryAt_renameTxn hcom fun target htg =>
    (hswap target htg).key_eq
  have hfd : inodeAt state source.inodeId = some source :=
    inodeAt_of_pin hcom (by simp [renameTxn, serviceTxn])
  have he : dentryAt state oldKey = some source.inodeId := by
    rw [hino, ← hkey]
    exact dentryAt_of_pin hcom (by simp [renameTxn, serviceTxn])
  have hmv : Moving state source oldParent landing oldKey newKey := by
    refine ⟨he, hfd, hold, hen, hfo, hfn, ?_⟩
    intro hdr
    rw [isDirectory_layoutOf hfd, decide_eq_true_eq] at hdr
    apply reaches_of_notDescendant hcom htree hen hfn
    simp [renameTxn, serviceTxn, hdr]
  have hkp : ∀ inodeId, ∀ found ∈ inodeAt state inodeId,
      ∃ later ∈ inodeAt next inodeId, later.namespaceId = found.namespaceId := by
    intro inodeId found hm
    rw [hin]
    refine home_parents hmv hm ?_
    rw [relinked_inodeId]
    refine home_ite hfd rfl hm ?_
    cases replaced with
    | none => exact ⟨found, hm, rfl⟩
    | some target =>
      obtain ⟨_, hre⟩ := (hswap target rfl).removed_eq
      have heq : target.removed.inodeId = target.original.inodeId := by
        rw [hre]
        rfl
      rw [writtenReplaced, heq]
      refine home_ite (inodeAt_of_pin hcom ?_) ?_ hm ⟨found, hm, rfl⟩
      · simp [renameTxn, serviceTxn]
      · rw [hre]
        rfl
  refine ⟨htree.keyed.commits hcom, ?_, htree.homes.step hkp ?_⟩
  · cases replaced with
    | none =>
      have hly : layoutOf next = (layoutOf state).move
          DentryKey.parentInodeId oldKey newKey source.inodeId := by
        apply Layout.ext
        · funext inodeId
          exact hmv.layout_move htree hroom hin inodeId
        · funext other
          exact hes other
      rw [hly]
      refine htree.formed.move he ?_ (hen.linked_layoutOf hfn) hmv.outside
      exact dentryAt_of_missing hcom (by simp [renameTxn, serviceTxn])
    | some target =>
      obtain ⟨hpl, hpo, hhm, ho, hkn, removedAt, hre⟩ := hswap target rfl
      have hpn : inodeAt state target.original.inodeId = some target.original :=
        inodeAt_of_pin hcom (by simp [renameTxn, serviceTxn])
      have hov : dentryAt state newKey = some target.original.inodeId := by
        rw [hpo, ← hpl]
        exact dentryAt_of_pin hcom (by simp [renameTxn, serviceTxn])
      have hem : (layoutOf state).isDirectory target.original.inodeId =
          true → ∀ key, DentryKey.parentInodeId key = target.original.inodeId →
            (layoutOf state).entry key = none := by
        intro hdr key hup
        rw [isDirectory_layoutOf hpn, decide_eq_true_eq] at hdr
        apply htree.entry_eq_none hcom hpn _ hup
        simp [renameTxn, serviceTxn, hkn.mp hdr, hre, relinked, hhm]
      have hly : layoutOf next = ((layoutOf state).remove
          DentryKey.parentInodeId newKey target.original.inodeId).move
            DentryKey.parentInodeId oldKey newKey source.inodeId := by
        apply Layout.ext
        · funext inodeId
          simp only [writtenReplaced, hre, relinked_inodeId, Option.any_some] at hin
          exact hmv.layout_replace htree hroom hov hpn ho hkn hem hin inodeId
        · funext other
          rw [move_entry, remove_entry]
          refine (hes other).trans ?_
          split
          · rfl
          · rfl
      rw [hly]
      exact htree.formed.replace he hov ho hem hmv.outside
  · intro other inodeId ha
    rw [hes] at ha
    split at ha
    next hnk =>
      subst hnk
      cases ha
      obtain ⟨later, hlt, hhm⟩ := hkp _ _ hfd
      refine .inr ⟨⟨later, hlt, ?_⟩, hen.home hfn⟩
      exact hhm.trans (hspace.trans hspaces.symm)
    · split at ha
      · cases ha
      · exact .inl ha

end Rename

/-! ## All transactions -/

lemma NamespaceTree.congr (htree : NamespaceTree state) (hkeys : WellKeyed next)
    (hinos : ∀ inodeId, inodeAt next inodeId = inodeAt state inodeId)
    (hents : ∀ key, dentryAt next key = dentryAt state key) : NamespaceTree next := by
  have hly : layoutOf next = layoutOf state := by
    apply Layout.ext
    · funext inodeId
      simp [layoutOf, hinos]
    · funext key
      exact hents key
  refine ⟨hkeys, hly ▸ htree.formed, htree.homes.step ?_ ?_⟩
  · intro inodeId inode hio
    exact ⟨inode, (hinos inodeId).symm ▸ hio, rfl⟩
  · intro key inodeId he
    exact .inl ((hents key).symm.trans he)

lemma NamespaceTree.commits (htree : NamespaceTree state)
    (hroom : Unsaturated state) (htxn : NamespaceTxn (· = 1) txn)
    (hcom : Commits state txn next) : NamespaceTree next := by
  cases htxn with
  | root namespaceId =>
    have hms : inodeAt state "1" = none := inodeAt_of_missing hcom (by simp [rootTxn, serviceTxn])
    obtain ⟨node, hn, _⟩ := htree.formed.root_linked
    simp [layoutOf, hms] at hn
  | child hup hns _ _ hlk hmr =>
    refine htree.child hroom hcom hup hns hlk ?_
    rcases hmr with hnn | ⟨lease, hls, _⟩
    · exact .inl hnn
    · exact .inr ⟨lease, hls⟩
  | link hup hns hkn _ =>
    exact htree.link hroom hcom hup hns hkn
  | remove hup hky hin hns hkn =>
    exact htree.remove hroom hcom hup hky hin hns hkn
  | noop =>
    refine htree.congr (htree.keyed.commits hcom) ?_ ?_
    · intro inodeId
      rw [inodeAt_commits hcom]
      simp [renameNoopTxn, serviceTxn]
      rfl
    · intro key
      rw [dentryAt_commits hcom]
      simp [renameNoopTxn, serviceTxn]
      rfl
  | rename hol hnw hnm _ hky hin hns hrp =>
    exact htree.rename hroom hcom hol hnw hnm hky hin hns hrp

lemma NamespaceTree.decides [Footprint] (htree : NamespaceTree state)
    (hroom : Unsaturated state) (htxn : NamespaceTxn (· = 1) txn)
    (hdec : Decides clock state txn next outcome) : NamespaceTree next := by
  rcases hdec.cases with ⟨hen, _⟩ | ⟨_, _, _, hcm⟩
  · apply htree.congr (htree.keyed.decides hdec)
    · intro inodeId
      simp [inodeAt, State.entity?, hen]
    · intro key
      simp [dentryAt, State.entity?, hen]
  · exact htree.commits hroom htxn hcm

lemma NamespaceTree.background (htree : NamespaceTree state)
    (hback : Background state next) : NamespaceTree next := by
  apply htree.congr (htree.keyed.background hback)
  · intro inodeId
    simp [inodeAt, State.entity?, hback.owned_eq (.dfsInode inodeId) rfl]
  · intro key
    simp [dentryAt, State.entity?, hback.owned_eq (.dfsDentry key) rfl]

end AgentDx.Dfs
