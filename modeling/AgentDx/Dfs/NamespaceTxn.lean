import AgentDx.Dfs.NamespaceOps

/-!
# The transactions of the namespace operations

What the operations may offer, once every published state keeps entities under
their own keys.  The reads behind a transaction may be of different states; the
facts kept here are those that do not depend on which ones.
-/

namespace AgentDx.Dfs

open Store Client Std Word Result Program

/-! ## Shapes -/

/-- The record read as the directory of an entry. -/
structure ParentOf (key : DentryKey) (parent : InodeRecord) : Prop where
  inode_eq : parent.inodeId = key.parentInodeId
  kind_eq : parent.kind = .directory
  namespace_eq : parent.namespaceId = key.namespaceId
  linked : parent.attributes.nlink ≠ 0

/-- The entry a rename takes the place of. -/
structure ReplacedAt (newKey : DentryKey) (source : InodeRecord)
    (target : Replaced) : Prop where
  key_eq : target.dentry.key = newKey
  inode_eq : target.original.inodeId = target.dentry.inodeId
  namespace_eq : target.original.namespaceId = newKey.namespaceId
  other : target.original.inodeId ≠ source.inodeId
  kind_iff : target.original.kind = .directory ↔ source.kind = .directory
  removed_eq : ∃ time, target.removed = relinked target.original
    (removedLinks (decide (target.original.kind = .directory))
      target.original.attributes.nlink) time

/-- The link count of a new inode and what it adds to its parent. -/
inductive NewLinks (regularLinks : ℕ → Prop) : InodeKind → ℕ → ℤ → Prop where
  | directory : NewLinks regularLinks .directory 2 1
  | regular {nlink} (hlinks : regularLinks nlink) : NewLinks regularLinks .regular nlink 0
  | symlink : NewLinks regularLinks .symlink 1 0
  | special {kind} : NewLinks regularLinks (.special kind) 1 0

/-- A transaction of some namespace operation, where the link counts that
callers give new regular files satisfy `regularLinks`. -/
inductive NamespaceTxn (regularLinks : ℕ → Prop) : MetaTxn → Prop where
  | root (namespaceId) : NamespaceTxn regularLinks (rootTxn namespaceId)
  | child {request operation parent} {inode : InodeRecord} {delta time key more result}
      (hparent : ParentOf key parent) (hnamespace : inode.namespaceId = key.namespaceId)
      (hroot : inode.inodeId ≠ "1") (hhead : inode.headVersion = none)
      (hlinks : NewLinks regularLinks inode.kind inode.attributes.nlink delta)
      (hmore : more = [] ∨ ∃ lease : WriteLease, more = [.dfsWriteLease lease] ∧
        lease.inodeId = inode.inodeId ∧ lease.leaseEpoch = 1) :
      NamespaceTxn regularLinks (childTxn request operation parent
        (changedParent parent delta time) inode key more result)
  | link {request parent} {original : InodeRecord} {linkedAt time key digest}
      (hparent : ParentOf key parent) (hnamespace : original.namespaceId = key.namespaceId)
      (hkind : original.kind ≠ .directory) (hlinked : original.attributes.nlink ≠ 0) :
      NamespaceTxn regularLinks (linkTxn request parent
        (changedParent parent 0 time) original
        (relinked original (adjustLinks original.attributes.nlink 1) linkedAt)
        key digest)
  | remove {request directory key} {dentry : Dentry} {original : InodeRecord}
      {parent removedAt time digest} (hparent : ParentOf key parent) (hkey : dentry.key = key)
      (hinode : original.inodeId = dentry.inodeId)
      (hnamespace : original.namespaceId = key.namespaceId)
      (hkind : original.kind = .directory ↔ directory = true) :
      NamespaceTxn regularLinks (removeTxn request directory key dentry original
        (relinked original (removedLinks directory original.attributes.nlink) removedAt) parent
        (changedParent parent (if directory then -1 else 0) time) digest)
  | noop {request dentry inode digest} :
      NamespaceTxn regularLinks (renameNoopTxn request dentry inode digest)
  | rename {request} {dentry : Dentry} {source : InodeRecord}
      {oldParent newParent oldKey newKey replaced renamedAt first second digest}
      (hold : ParentOf oldKey oldParent) (hnew : ParentOf newKey newParent)
      (hnamespaces : newKey.namespaceId = oldKey.namespaceId) (hdistinct : oldKey ≠ newKey)
      (hkey : dentry.key = oldKey) (hinode : source.inodeId = dentry.inodeId)
      (hnamespace : source.namespaceId = oldKey.namespaceId)
      (hreplaced : ∀ target ∈ replaced, ReplacedAt newKey source target) :
      NamespaceTxn regularLinks (renameTxn request dentry source
        (relinked source source.attributes.nlink renamedAt) oldKey newKey
        replaced (renameParents
          (decide (oldKey.parentInodeId = newKey.parentInodeId))
          (decide (source.kind = .directory))
          (replaced.any fun target => decide (target.original.kind = .directory))
          oldParent newParent first second) digest)

/-! ## Reads -/

variable {view : State} {namespaceId : NamespaceId} {inodeId : InodeId}
  {inode : InodeRecord}

lemma inodeFromView_eq_ok (hkeys : WellKeyed view)
    (hread : inodeFromView view namespaceId inodeId = .ok inode) :
    inode.inodeId = inodeId ∧ inode.namespaceId = namespaceId := by
  unfold inodeFromView at hread
  split at hread
  next stored hst =>
    split at hread
    next hns =>
      cases hread
      have hky := hkeys _ _ hst (.inl rfl)
      exact ⟨by simpa [entityKey] using hky, hns⟩
    · cases hread
  · split at hread
    next hrt =>
      cases hread
      exact ⟨hrt.symm, rfl⟩
    · cases hread
  · cases hread

variable {key : DentryKey} {dentry : Dentry}

lemma dentryFromView_eq_some (hkeys : WellKeyed view)
    (hread : dentryFromView view key = some dentry) : dentry.key = key := by
  unfold dentryFromView at hread
  split at hread
  next stored hst =>
    cases hread
    have how := hkeys _ _ hst (.inl rfl)
    simpa [entityKey] using how
  · cases hread

variable {regularLinks : ℕ → Prop}

section Offers

variable {Seen : State → Prop} {Read : ℕ → Prop} {txn : MetaTxn}

lemma offers_initializeRoot (hoffer : (initializeRoot namespaceId).Offers Seen Read txn) :
    txn = rootTxn namespaceId := by
  simp only [initializeRoot, offers_bind, offers_read, false_or] at hoffer
  obtain ⟨entity, _, hoffer⟩ := hoffer
  cases entity with
  | some stored => simp at hoffer
  | none => simpa [offers_bind] using hoffer

lemma offers_directoryForMutation
    (hoffer : (directoryForMutation namespaceId parent).Offers Seen Read txn) :
    NamespaceTxn regularLinks txn := by
  simp only [directoryForMutation, offers_bind, offers_lift, offers_pure,
    and_false, exists_false, or_false] at hoffer
  unfold parentInode at hoffer
  split at hoffer
  · simp only [ensureNamespaceRoot, offers_bind, offers_lift,
      offers_getInode, offers_pure, and_false, exists_false, or_false] at hoffer
    cases offers_initializeRoot hoffer
    exact .root _
  · simp at hoffer

lemma returns_directoryForMutation (hkeys : ∀ view, Seen view → WellKeyed view)
    (hreturns : (directoryForMutation key.namespaceId key.parentInodeId).Returns Seen Read inode) :
        ParentOf key inode := by
  simp only [directoryForMutation, returns_bind, returns_lift,
    ensure_eq_ok, Bool.and_eq_true, decide_eq_true_eq, returns_pure] at hreturns
  obtain ⟨found, hup, _, ⟨hkn, hns⟩, _, hln, rfl⟩ := hreturns
  refine ⟨?_, hkn, hns, hln⟩
  have hfn : ∃ inodeId, inodeId = key.parentInodeId ∧
      (getInode inodeId).Returns Seen Read found := by
    unfold parentInode at hup
    split at hup
    next hrt =>
      simp only [ensureNamespaceRoot, returns_bind, returns_pure] at hup
      obtain ⟨_, _, _, hgt, _, _, rfl⟩ := hup
      exact ⟨"1", hrt.symm, hgt⟩
    · exact ⟨_, rfl, hup⟩
  obtain ⟨_, rfl, hgt⟩ := hfn
  rcases returns_getInode hgt with ⟨view, hsn, hst⟩ | ⟨hrt, rfl⟩
  · have how := hkeys view hsn _ _ hst (.inl rfl)
    simpa [entityKey] using how
  · exact hrt.symm

variable {callerId : String} {operationId : OperationId} {operation : StoreOperation}
  {digest : Digest}

@[simp]
lemma offers_replayedNamespaceResult :
    ¬ (replayedNamespaceResult callerId operationId operation digest).Offers
      Seen Read txn := by
  simp only [replayedNamespaceResult, offers_bind, offers_replayedResult, false_or]
  rintro ⟨result, _, h⟩
  revert h
  cases result <;> simp [offers_bind]

@[simp]
lemma offers_replayedNamespaceInode :
    ¬ (replayedNamespaceInode callerId operationId operation digest).Offers
      Seen Read txn := by
  simp only [replayedNamespaceInode, offers_bind, offers_replayedNamespaceResult, false_or]
  rintro ⟨result, _, h⟩
  revert h
  split <;> simp

@[simp]
lemma offers_replayedNamespaceInodeAndLease :
    ¬ (replayedNamespaceInodeAndLease callerId operationId operation
      digest).Offers Seen Read txn := by
  simp only [replayedNamespaceInodeAndLease, offers_bind, offers_replayedNamespaceResult, false_or]
  rintro ⟨result, _, h⟩
  revert h
  split <;> simp

@[simp]
lemma offers_replayedNamespaceRename :
    ¬ (replayedNamespaceRename callerId operationId operation digest).Offers
      Seen Read txn := by
  simp only [replayedNamespaceRename, offers_bind, offers_replayedNamespaceResult, false_or]
  rintro ⟨result, _, h⟩
  revert h
  split <;> simp

/-! ## New inodes -/

variable [Hash] [RequestCodec]

omit [RequestCodec] in
lemma namespaceInodeId_ne_root (callerId operationId) :
    namespaceInodeId callerId operationId ≠ "1" := by
  intro heq
  have hln := congrArg String.length heq
  simp only [namespaceInodeId, String.length_append] at hln
  have hnm : "inode:".length = 6 := by decide
  have hrt : "1".length = 1 := by decide
  omega

omit [Hash] [RequestCodec] in
lemma offers_retryableCreateParentDrift
    (hoffer : (retryableCreateParentDrift namespaceId parentInodeId key inodeId previous).Offers
      Seen Read txn) :
    NamespaceTxn regularLinks txn := by
  simp only [retryableCreateParentDrift, offers_bind, offers_read, false_or] at hoffer
  obtain ⟨_, _, _, _, _, _, hoffer⟩ := hoffer
  split at hoffer
  · simp at hoffer
  · simp only [offers_bind, offers_pure, and_false, exists_false, or_false] at hoffer
    exact offers_directoryForMutation hoffer

variable (hkeys : ∀ view, Seen view → WellKeyed view)

include hkeys

omit [Hash] [RequestCodec] in
lemma returns_retryableCreateParentDrift
    (hreturns : (retryableCreateParentDrift key.namespaceId key.parentInodeId key inodeId
      previous).Returns Seen Read (some current)) :
    ParentOf key current := by
  simp only [retryableCreateParentDrift, returns_bind] at hreturns
  obtain ⟨_, _, _, _, _, _, hreturns⟩ := hreturns
  split at hreturns
  · simp at hreturns
  · simp only [returns_bind, returns_pure] at hreturns
    obtain ⟨found, hfn, hsm⟩ := hreturns
    split at hsm
    · cases hsm
      exact returns_directoryForMutation hkeys hfn
    · cases hsm

omit [RequestCodec] in
lemma offers_createAttempts (hup : ParentOf (createKey request) parent)
    (hlease : lease.inodeId = (createInode request).inodeId) (hepoch : lease.leaseEpoch = 1)
    (hoffer : (createAttempts request digest lease attempts parent).Offers Seen Read txn) :
    NamespaceTxn (· = request.attributes.nlink) txn := by
  induction attempts generalizing parent with
  | zero => simp [createAttempts] at hoffer
  | succ attempts ih =>
    simp only [createAttempts, offers_bind, offers_now, false_or,
      offers_compareAndCommit, offers_lift] at hoffer
    obtain ⟨time, _, rfl | ⟨outcome, _, validated, _, hoffer⟩⟩ := hoffer
    · exact .child hup rfl (namespaceInodeId_ne_root _ _) rfl
        (.regular rfl) (.inr ⟨lease, rfl, hlease, hepoch⟩)
    · split at hoffer
      · simp at hoffer
      · split at hoffer
        · simp only [offers_bind, offers_replayedNamespaceInodeAndLease, false_or] at hoffer
          obtain ⟨replayed, _, hoffer⟩ := hoffer
          cases replayed with
          | some created => simp at hoffer
          | none =>
            simp only [offers_bind] at hoffer
            rcases hoffer with hoffer | ⟨current, h, hoffer⟩
            · exact offers_retryableCreateParentDrift hoffer
            · cases current with
              | none => simp at hoffer
              | some current =>
                exact ih (returns_retryableCreateParentDrift hkeys h) hoffer
        · simp at hoffer

lemma offers_create (hoffer : (create request).Offers Seen Read txn) :
    NamespaceTxn (· = request.attributes.nlink) txn := by
  simp only [create, offers_bind, offers_lift,
    offers_replayedNamespaceInodeAndLease, false_or] at hoffer
  obtain ⟨digest, _, _, _, _, _, _, _, _, _, _, _, replayed, _, hoffer⟩ := hoffer
  cases replayed with
  | some created => simp at hoffer
  | none =>
    simp only [offers_bind, offers_lift, offers_leaseExpiry, false_or] at hoffer
    obtain ⟨_, _, expiry, _, hoffer | ⟨parent, hup, hoffer⟩⟩ := hoffer
    · exact offers_directoryForMutation hoffer
    · have h : ParentOf (createKey request) parent := returns_directoryForMutation hkeys hup
      exact offers_createAttempts hkeys h rfl rfl hoffer

lemma offers_mkdir (hoffer : (mkdir request).Offers Seen Read txn) :
    NamespaceTxn regularLinks txn := by
  simp only [mkdir, offers_bind, offers_lift, offers_replayedNamespaceInode, false_or] at hoffer
  obtain ⟨digest, _, _, _, _, _, _, _, _, _, replayed, _, hoffer⟩ := hoffer
  cases replayed with
  | some inode => simp at hoffer
  | none =>
    simp only [offers_bind, offers_lift, offers_now,
      offers_compareAndCommit, and_false, exists_false, or_false, false_or] at hoffer
    obtain ⟨_, _, hoffer | ⟨parent, hup, _, _, time, _, rfl⟩⟩ := hoffer
    · exact offers_directoryForMutation hoffer
    · exact .child (returns_directoryForMutation hkeys hup) rfl
        (namespaceInodeId_ne_root _ _) rfl .directory (.inl rfl)

lemma offers_mknod (hoffer : (mknod request).Offers Seen Read txn) :
    NamespaceTxn regularLinks txn := by
  simp only [mknod, offers_bind, offers_lift, offers_replayedNamespaceInode, false_or] at hoffer
  obtain ⟨digest, _, _, _, _, _, _, _, _, _, replayed, _, hoffer⟩ := hoffer
  cases replayed with
  | some inode => simp at hoffer
  | none =>
    simp only [offers_bind, offers_lift, offers_now,
      offers_compareAndCommit, and_false, exists_false, or_false, false_or] at hoffer
    obtain ⟨_, _, hoffer | ⟨parent, hup, _, _, _, _, created, _, time, _, rfl⟩⟩ := hoffer
    · exact offers_directoryForMutation hoffer
    · exact .child (returns_directoryForMutation hkeys hup) rfl
        (namespaceInodeId_ne_root _ _) rfl .special (.inl rfl)

lemma offers_symlink (hoffer : (symlink request).Offers Seen Read txn) :
    NamespaceTxn regularLinks txn := by
  simp only [symlink, offers_bind, offers_lift, offers_replayedNamespaceInode, false_or] at hoffer
  obtain ⟨digest, _, _, _, _, _, _, _, _, _, replayed, _, hoffer⟩ := hoffer
  cases replayed with
  | some inode => simp at hoffer
  | none =>
    simp only [offers_bind, offers_lift, offers_now,
      offers_compareAndCommit, and_false, exists_false, or_false, false_or] at hoffer
    obtain ⟨_, _, _, _, hoffer | ⟨parent, hup, _, _, time, _, rfl⟩⟩ := hoffer
    · exact offers_directoryForMutation hoffer
    · exact .child (returns_directoryForMutation hkeys hup) rfl
        (namespaceInodeId_ne_root _ _) rfl .symlink (.inl rfl)

/-! ## Links and removals -/

lemma offers_link (hoffer : (link request).Offers Seen Read txn) :
    NamespaceTxn regularLinks txn := by
  simp only [link, offers_bind, offers_lift, offers_replayedNamespaceInode, false_or] at hoffer
  obtain ⟨digest, _, _, _, _, _, _, _, _, _, _, _, replayed, _, hoffer⟩ := hoffer
  cases replayed with
  | some inode => simp at hoffer
  | none =>
    simp only [offers_bind, offers_lift, offers_now, offers_look,
      offers_compareAndCommit, returns_look, returns_lift, ensure_eq_ok,
      decide_eq_true_eq, and_false, exists_false, or_false, false_or] at hoffer
    obtain ⟨_, _, hoffer | ⟨parent, hup, _, _, view, hsn, inode, hin,
      _, hkn, _, hln, _, _, linkedAt, _, time, _, rfl⟩⟩ := hoffer
    · exact offers_directoryForMutation hoffer
    · obtain ⟨_, hns⟩ := inodeFromView_eq_ok (hkeys view hsn) hin
      have hfn : ParentOf ⟨request.namespaceId, request.parentInodeId,
        request.name⟩ parent := returns_directoryForMutation hkeys hup
      exact .link hfn hns hkn hln

variable {directory : Bool}

omit hkeys in
omit [Hash] [RequestCodec] in
lemma ensureRemovable_eq_ok
    (hensure : ensureRemovable view namespaceId directory inode = .ok value) :
    inode.kind = .directory ↔ directory = true := by
  unfold ensureRemovable at hensure
  cases directory with
  | false => simpa using hensure
  | true =>
    obtain ⟨_, h, _⟩ := bind_eq_ok.mp hensure
    simpa using h

lemma offers_removeNamespaceEntryAttempt
    (hoffer : (removeNamespaceEntryAttempt request directory expected).Offers Seen Read txn) :
        NamespaceTxn regularLinks txn := by
  simp only [removeNamespaceEntryAttempt, offers_bind, offers_lift,
    offers_replayedNamespaceInode, false_or] at hoffer
  obtain ⟨digest, _, _, _, _, _, _, _, _, _, replayed, _, hoffer⟩ := hoffer
  cases replayed with
  | some inode => simp at hoffer
  | none =>
    simp only [offers_bind, offers_lift, offers_now, offers_look,
      offers_compareAndCommit, returns_look, returns_lift, okOr_eq_ok, false_or] at hoffer
    obtain ⟨_, _, hoffer | ⟨parent, hup, _, _, view, hsn, dentry,
      hdn, _, _, inode, hin, _, hrm, _, _, removedAt, _, time, _,
      rfl | ⟨outcome, _, validated, _, hoffer⟩⟩⟩ := hoffer
    · exact offers_directoryForMutation hoffer
    · obtain ⟨hid, hns⟩ := inodeFromView_eq_ok (hkeys view hsn) hin
      have hfn : ParentOf ⟨request.namespaceId, request.parentInodeId,
        request.name⟩ parent := returns_directoryForMutation hkeys hup
      exact .remove hfn (dentryFromView_eq_some (hkeys view hsn) hdn)
        hid hns (ensureRemovable_eq_ok hrm)
    · split at hoffer
      · simp at hoffer
      · simp [offers_bind] at hoffer

lemma offers_removeAttempts
    (hoffer : (removeAttempts request directory attempts expected).Offers Seen Read txn) :
        NamespaceTxn regularLinks txn := by
  induction attempts generalizing expected with
  | zero => simp [removeAttempts] at hoffer
  | succ attempts ih =>
    simp only [removeAttempts, offers_bind] at hoffer
    rcases hoffer with hoffer | ⟨result, _, hoffer⟩
    · exact offers_removeNamespaceEntryAttempt hkeys hoffer
    · cases result with
      | inl inode => simp at hoffer
      | inr inodeId => exact ih hoffer

omit hkeys

/-! ## Renames -/

omit [Hash] [RequestCodec] in
lemma offers_recordRenameNoop
    (hoffer : (recordRenameNoop request dentry inode digest).Offers Seen Read txn) :
        NamespaceTxn regularLinks txn := by
  simp only [recordRenameNoop, offers_bind, offers_compareAndCommit,
    offers_lift, and_false, exists_false, or_false] at hoffer
  subst hoffer
  exact .noop

/-- The target a rename found: an entry and its inode. -/
structure TargetAt (newKey : DentryKey) (view : State) (source : InodeRecord)
    (found : Dentry × InodeRecord) : Prop where
  key_eq : found.1.key = newKey
  read_eq : inodeFromView view newKey.namespaceId found.1.inodeId = .ok found.2
  other : found.2.inodeId ≠ source.inodeId
  kind_iff : found.2.kind = .directory ↔ source.kind = .directory

variable {source : InodeRecord}

omit [Hash] [RequestCodec] in
lemma TargetAt.replaced (hkeys : WellKeyed view) (haim : TargetAt newKey view source found)
    (horig : inodeFromView view newKey.namespaceId found.2.inodeId = .ok original) :
    original = found.2 ∧ ReplacedAt newKey source ⟨found.1, original,
      relinked found.2 (removedLinks (decide (found.2.kind = .directory))
        found.2.attributes.nlink) time⟩ := by
  obtain ⟨hky, hrd, ho, hkn⟩ := haim
  obtain ⟨hid, hns⟩ := inodeFromView_eq_ok hkeys hrd
  rw [hid, hrd] at horig
  cases horig
  exact ⟨rfl, hky, hid, hns, ho, hkn, time, rfl⟩

variable {request : RenameRequest}

omit [Hash] [RequestCodec] in
lemma offers_commitRename (hkeys : WellKeyed view)
    (holdKey : oldKey = ⟨request.namespaceId, request.oldParentInodeId, request.oldName⟩)
    (hnewKey : newKey = ⟨request.namespaceId, request.newParentInodeId, request.newName⟩)
    (hold : ParentOf oldKey oldParent) (hnew : ParentOf newKey newParent)
    (hdist : oldKey ≠ newKey) (hkey : dentry.key = oldKey) (hino : source.inodeId = dentry.inodeId)
    (hspace : source.namespaceId = request.namespaceId)
    (haim : ∀ found ∈ target, TargetAt newKey view source found)
    (hoffer : (commitRename request digest view oldParent newParent dentry source target).Offers
        Seen Read txn) : NamespaceTxn regularLinks txn := by
  subst holdKey
  subst hnewKey
  simp only [commitRename, offers_bind, offers_now, offers_lift,
    returns_lift, offers_compareAndCommit, false_or, and_false, exists_false, or_false] at hoffer
  obtain ⟨renamedAt, _, removedAt, _, replaced, hrp, first, _, second, _, rfl⟩ := hoffer
  cases target with
  | none =>
    cases hrp
    exact .rename hold hnew rfl hdist hkey hino hspace (by simp)
  | some found =>
    obtain ⟨entry, he, hrp⟩ := bind_eq_ok.mp hrp
    cases hrp
    obtain ⟨original, hor, he⟩ := bind_eq_ok.mp he
    cases he
    obtain ⟨rfl, hat⟩ := (haim found rfl).replaced hkeys hor
    refine .rename hold hnew rfl hdist hkey hino hspace ?_
    intro target hm
    cases hm
    exact hat

omit [Hash] [RequestCodec] in
lemma ensureReplaceable_eq_ok
    (hensure : ensureReplaceable view namespaceId source target = .ok value) :
    target.kind = .directory ↔ source.kind = .directory := by
  unfold ensureReplaceable at hensure
  split at hensure
  · obtain ⟨_, hfs, hensure⟩ := bind_eq_ok.mp hensure
    obtain ⟨_, hsn, _⟩ := bind_eq_ok.mp hensure
    simp only [ensure_eq_ok, Bool.not_eq_true', Bool.and_eq_false_iff,
      decide_eq_false_iff_not] at hfs hsn
    tauto
  next hne =>
    tauto

omit [Hash] [RequestCodec] in
lemma offers_renameFound (hkeys : WellKeyed view)
    (hold : ParentOf ⟨request.namespaceId, request.oldParentInodeId, request.oldName⟩ oldParent)
    (hnew : ParentOf ⟨request.namespaceId, request.newParentInodeId, request.newName⟩ newParent)
    (hkey : dentry.key = ⟨request.namespaceId, request.oldParentInodeId, request.oldName⟩)
    (hino : source.inodeId = dentry.inodeId) (hspace : source.namespaceId = request.namespaceId)
    (hoffer : (renameFound request digest view oldParent newParent dentry source).Offers Seen Read
        txn) : NamespaceTxn regularLinks txn := by
  simp only [renameFound] at hoffer
  split at hoffer
  · exact offers_recordRenameNoop hoffer
  next hpl =>
    have hds : (⟨request.namespaceId, request.oldParentInodeId, request.oldName⟩ : DentryKey) ≠
        ⟨request.namespaceId, request.newParentInodeId, request.newName⟩ := by
      simpa using hpl
    simp only [offers_bind, offers_lift, false_or] at hoffer
    obtain ⟨_, _, _, _, hoffer⟩ := hoffer
    split at hoffer
    · exact offers_commitRename hkeys rfl rfl hold hnew hds hkey hino hspace (by simp) hoffer
    next found hfn =>
      simp only [offers_bind, offers_lift, returns_lift, false_or] at hoffer
      obtain ⟨inode, hrd, _, _, hoffer⟩ := hoffer
      split at hoffer
      · exact offers_recordRenameNoop hoffer
      next ho =>
        simp only [offers_bind, offers_lift, returns_lift, false_or] at hoffer
        obtain ⟨_, hrp, hoffer⟩ := hoffer
        refine offers_commitRename hkeys rfl rfl hold hnew hds hkey hino hspace ?_ hoffer
        intro target hm
        cases hm
        exact ⟨dentryFromView_eq_some hkeys hfn, hrd, ho, ensureReplaceable_eq_ok hrp⟩

lemma offers_rename (hkeys : ∀ view, Seen view → WellKeyed view)
    (hoffer : (rename request).Offers Seen Read txn) : NamespaceTxn regularLinks txn := by
  simp only [rename, offers_bind, offers_lift, offers_replayedNamespaceRename, false_or] at hoffer
  obtain ⟨digest, _, _, _, _, _, _, _, _, _, _, _, replayed, _, hoffer⟩ := hoffer
  cases replayed with
  | some outcome => simp at hoffer
  | none =>
    simp only [offers_bind, offers_lift, offers_look, returns_look,
      returns_lift, okOr_eq_ok, false_or] at hoffer
    obtain ⟨_, _, _, _, hoffer | ⟨oldParent, hol, hoffer | ⟨newParent, hnw,
      _, _, _, _, view, hsn, dentry, hdn, source, hsr, _, _, hoffer⟩⟩⟩ := hoffer
    · exact offers_directoryForMutation hoffer
    · exact offers_directoryForMutation hoffer
    · have hvw := hkeys view hsn
      obtain ⟨hid, hns⟩ := inodeFromView_eq_ok hvw hsr
      exact offers_renameFound hvw (returns_directoryForMutation hkeys hol)
        (returns_directoryForMutation hkeys hnw)
        (dentryFromView_eq_some hvw hdn) hid hns hoffer

end Offers

/-! ## All operations -/

inductive NamespaceOperation where
  | create (request : CreateFileRequest)
  | mkdir (request : MkdirRequest)
  | mknod (request : MknodRequest)
  | symlink (request : SymlinkRequest)
  | link (request : LinkRequest)
  | unlink (request : UnlinkRequest)
  | rmdir (request : UnlinkRequest)
  | rename (request : RenameRequest)

section Programs

variable [Hash] [RequestCodec]

def NamespaceOperation.program : NamespaceOperation → Service Unit
  | .create request => forget (Dfs.create request)
  | .mkdir request => forget (Dfs.mkdir request)
  | .mknod request => forget (Dfs.mknod request)
  | .symlink request => forget (Dfs.symlink request)
  | .link request => forget (Dfs.link request)
  | .unlink request => forget (Dfs.unlink request)
  | .rmdir request => forget (Dfs.rmdir request)
  | .rename request => forget (Dfs.rename request)

omit [Hash] [RequestCodec] in
lemma NewLinks.mono {few many} (hlinks : ∀ nlink, few nlink → many nlink)
    (hnew : NewLinks few kind nlink delta) : NewLinks many kind nlink delta := by
  cases hnew with
  | directory => exact .directory
  | regular h => exact .regular (hlinks _ h)
  | symlink => exact .symlink
  | special => exact .special

omit [Hash] [RequestCodec] in
lemma NamespaceTxn.mono {few many} (hlinks : ∀ nlink, few nlink → many nlink)
    (htxn : NamespaceTxn few txn) : NamespaceTxn many txn := by
  cases htxn with
  | root namespaceId => exact .root namespaceId
  | child hup hns hrt hhd hnw hmr =>
    exact .child hup hns hrt hhd (hnw.mono hlinks) hmr
  | link hup hns hkn hln =>
    exact .link hup hns hkn hln
  | remove hup hky hin hns hkn =>
    exact .remove hup hky hin hns hkn
  | noop => exact .noop
  | rename hol hnw hnm hds hky hin hns hrp =>
    exact .rename hol hnw hnm hds hky hin hns hrp

lemma NamespaceOperation.offers {Seen : State → Prop} {Read : ℕ → Prop}
    {operation : NamespaceOperation}
    (hkeys : ∀ view, Seen view → WellKeyed view)
    (hlinks : ∀ request, operation = .create request → regularLinks request.attributes.nlink)
    (hoffer : operation.program.Offers Seen Read txn) : NamespaceTxn regularLinks txn := by
  cases operation with
  | create request =>
    refine (offers_create hkeys (offers_forget.mp hoffer)).mono ?_
    rintro nlink rfl
    exact hlinks request rfl
  | mkdir request => exact offers_mkdir hkeys (offers_forget.mp hoffer)
  | mknod request => exact offers_mknod hkeys (offers_forget.mp hoffer)
  | symlink request => exact offers_symlink hkeys (offers_forget.mp hoffer)
  | link request => exact offers_link hkeys (offers_forget.mp hoffer)
  | unlink request | rmdir request => exact offers_removeAttempts hkeys (offers_forget.mp hoffer)
  | rename request => exact offers_rename hkeys (offers_forget.mp hoffer)

end Programs

end AgentDx.Dfs
