import AgentDx.Dfs.NamespaceInvariant
import AgentDx.Store.Recovery

/-!
# The directory tree over whole runs

Clients create, link, remove and rename entries of one namespace, reading and
committing in any order.  Every state they publish holds a directory tree whose
link counts are exact.
-/

namespace AgentDx.Dfs

open Store Client Std Word LinkTree Transition

/-! ## What a tree is -/

/-- `directory` holds an entry that points to `inodeId`. -/
def HeldBy (state : State) (inodeId directory : InodeId) : Prop :=
  ∃ key, dentryAt state key = some inodeId ∧ key.parentInodeId = directory

def childDirectories (state : State) (directory : InodeId) : Set InodeId :=
  {child | HeldBy state child directory ∧ ∃ inode ∈ inodeAt state child, inode.kind = .directory}

/-- The root, and what an entry points to. -/
def InTree (state : State) (inodeId : InodeId) : Prop :=
  inodeId = "1" ∨ ∃ key, dentryAt state key = some inodeId

/-- The entries and inodes of a state form a directory tree below the inode
`"1"`, and every link count is exact. -/
structure DirectoryTree (state : State) : Prop where
  root : ∃ inode ∈ inodeAt state "1", inode.kind = .directory
  points : ∀ {key inodeId}, dentryAt state key = some inodeId →
    ∃ inode ∈ inodeAt state inodeId, inode.namespaceId = key.namespaceId
  linked : ∀ {inodeId inode}, inodeAt state inodeId = some inode →
    inode.kind = .directory → (inode.attributes.nlink ≠ 0 ↔ InTree state inodeId)
  named_once : ∀ {inodeId inode}, inodeAt state inodeId = some inode →
    inode.kind = .directory → InTree state inodeId → inodeId ≠ "1" →
    ∃! key, dentryAt state key = some inodeId
  reaches_root : ∀ {inodeId inode}, inodeAt state inodeId = some inode →
    inode.kind = .directory → InTree state inodeId →
    Relation.ReflTransGen (HeldBy state) inodeId "1"
  acyclic : ∀ inodeId, ¬ Relation.TransGen (HeldBy state) inodeId inodeId
  file_links : ∀ {inodeId inode}, inodeAt state inodeId = some inode →
    inode.kind ≠ .directory → inode.attributes.nlink =
      {key | dentryAt state key = some inodeId}.ncard
  directory_links : ∀ {inodeId inode}, inodeAt state inodeId = some inode →
    inode.kind = .directory → InTree state inodeId →
    inode.attributes.nlink = 2 + (childDirectories state inodeId).ncard
  removed : ∀ {inodeId inode}, inodeAt state inodeId = some inode →
    inode.kind = .directory → inodeId ≠ "1" → (∀ key, dentryAt state key ≠ some inodeId) →
    inode.attributes.nlink = 0 ∧ ∀ key, key.parentInodeId = inodeId → dentryAt state key = none
  finite : {key | (dentryAt state key).isSome}.Finite

variable {state : State}

lemma linked_layoutOf (hino : inodeAt state inodeId = some inode)
    (hkind : inode.kind = .directory) (hlinks : inode.attributes.nlink ≠ 0) :
    (layoutOf state).Linked inodeId :=
  ⟨nodeOf inode, node_layoutOf hino, by simp [nodeOf, hkind], hlinks⟩

lemma NamespaceTree.charged_file (htree : NamespaceTree state)
    (hfile : (layoutOf state).isDirectory inodeId = false) :
    (layoutOf state).charged DentryKey.parentInodeId inodeId =
      {key | dentryAt state key = some inodeId} := by
  ext key
  constructor
  · rintro ⟨target, hrow, hcost⟩
    unfold Layout.charge at hcost
    split at hcost
    · have hup := Layout.isDirectory_of_linked (htree.formed.parent_linked hrow)
      rw [hcost, hfile] at hup
      cases hup
    · exact hcost ▸ hrow
  · intro hrow
    exact ⟨inodeId, hrow, by simp [Layout.charge, hfile]⟩

lemma NamespaceTree.ncard_charged_directory (htree : NamespaceTree state)
    (hdirectory : (layoutOf state).isDirectory inodeId = true) :
    ((layoutOf state).charged DentryKey.parentInodeId inodeId).ncard =
      (childDirectories state inodeId).ncard := by
  have hchg : ∀ key target, dentryAt state key = some target →
      ((layoutOf state).charge DentryKey.parentInodeId key target = inodeId ↔
        (layoutOf state).isDirectory target = true ∧ key.parentInodeId = inodeId) := by
    intro key target _
    unfold Layout.charge
    split
    next hchild =>
      simp [hchild]
    next hchild =>
      refine ⟨fun heq => ?_, fun ⟨hdir, _⟩ => absurd hdir hchild⟩
      rw [heq] at hchild
      exact absurd hdirectory hchild
  have hkind : ∀ target, (layoutOf state).isDirectory target = true ↔
      ∃ inode ∈ inodeAt state target, inode.kind = .directory := by
    intro target
    cases hino : inodeAt state target with
    | none => simp [Layout.isDirectory, layoutOf, hino]
    | some inode => simp [isDirectory_layoutOf hino]
  refine Set.ncard_congr (fun key hkey => hkey.choose) ?_ ?_ ?_
  · intro key hkey
    obtain ⟨hrow, hcost⟩ := hkey.choose_spec
    obtain ⟨hdir, hup⟩ := (hchg _ _ hrow).mp hcost
    exact ⟨⟨key, hrow, hup⟩, (hkind _).mp hdir⟩
  · intro first second hfirst hsecond heq
    obtain ⟨hone, hcost⟩ := hfirst.choose_spec
    obtain ⟨htwo, _⟩ := hsecond.choose_spec
    have hdir := ((hchg _ _ hone).mp hcost).1
    rw [← heq] at htwo
    exact htree.formed.single hdir hone htwo
  · rintro child ⟨⟨key, hrow, hup⟩, hchild⟩
    have hkey : key ∈ (layoutOf state).charged DentryKey.parentInodeId inodeId :=
      ⟨child, hrow, (hchg _ _ hrow).mpr ⟨(hkind _).mpr hchild, hup⟩⟩
    refine ⟨key, hkey, ?_⟩
    exact Option.some.inj (hkey.choose_spec.1.symm.trans hrow)

lemma NamespaceTree.linked_iff (htree : NamespaceTree state)
    (hino : inodeAt state inodeId = some inode) (hkind : inode.kind = .directory) :
    inode.attributes.nlink ≠ 0 ↔ InTree state inodeId := by
  constructor
  · intro hlinks
    by_cases hroot : inodeId = "1"
    · exact .inl hroot
    · exact .inr (htree.formed.named (linked_layoutOf hino hkind hlinks) hroot (by simp))
  · rintro (rfl | ⟨key, hkey⟩)
    · obtain ⟨node, hnode, -, hlinks⟩ := htree.formed.root_linked
      cases Option.mem_unique hnode (node_layoutOf hino)
      exact hlinks
    · obtain ⟨node, hnode, hlinks⟩ := htree.formed.target hkey
      cases Option.mem_unique hnode (node_layoutOf hino)
      exact hlinks (by simp [nodeOf, hkind])

lemma NamespaceTree.directoryTree (htree : NamespaceTree state) : DirectoryTree state where
  root := by
    obtain ⟨node, hnode, hdir, -⟩ := htree.formed.root_linked
    obtain ⟨inode, hino, rfl⟩ := Option.map_eq_some_iff.mp hnode
    exact ⟨inode, hino, by simpa [nodeOf] using hdir⟩
  points := htree.homes.target
  linked := htree.linked_iff
  named_once := by
    intro inodeId inode hino hkind hin hroot
    have hlink := linked_layoutOf hino hkind ((htree.linked_iff hino hkind).mpr hin)
    obtain ⟨key, hkey⟩ := htree.formed.named hlink hroot (by simp)
    refine ⟨key, hkey, fun other hother => ?_⟩
    exact htree.formed.single (Layout.isDirectory_of_linked hlink) hother hkey
  reaches_root := fun hino hkind hin => (htree.formed.rooted
    (linked_layoutOf hino hkind ((htree.linked_iff hino hkind).mpr hin))).ways
  acyclic := htree.formed.acyclic
  file_links := by
    intro inodeId inode hino hkind
    have hfile : (layoutOf state).isDirectory inodeId = false := by
      simp [isDirectory_layoutOf hino, hkind]
    have hnums := htree.formed.counts (node_layoutOf hino) (by simp [nodeOf, hkind])
    rw [htree.charged_file hfile] at hnums
    simpa [nodeOf, Node.own, hkind] using hnums
  directory_links := by
    intro inodeId inode hino hkind hin
    have hdir : (layoutOf state).isDirectory inodeId = true := by
      simp [isDirectory_layoutOf hino, hkind]
    have hnums := htree.formed.counts (node_layoutOf hino)
      fun _ => (htree.linked_iff hino hkind).mpr hin
    rw [htree.ncard_charged_directory hdir] at hnums
    simpa [nodeOf, Node.own, hkind] using hnums
  removed := by
    intro inodeId inode hino hkind hroot hunnamed
    have hlinks : inode.attributes.nlink = 0 := by
      by_contra hlinks
      obtain ⟨key, hkey⟩ := ((htree.linked_iff hino hkind).mp hlinks).resolve_left hroot
      exact hunnamed key hkey
    refine ⟨hlinks, fun key hup => ?_⟩
    rw [Option.eq_none_iff_forall_ne_some]
    intro child hchild
    obtain ⟨node, hnode, _, hpositive⟩ := htree.formed.parent_linked hchild
    rw [hup] at hnode
    cases Option.mem_unique hnode (node_layoutOf hino)
    exact hpositive hlinks
  finite := htree.formed.finite

/-! ## Runs -/

/-- A store whose namespace holds only its root directory. -/
structure RootOnly (state : State) : Prop where
  keyed : WellKeyed state
  root : ∃ inode ∈ inodeAt state "1", inode.kind = .directory ∧ inode.attributes.nlink = 2
  inodes : ∀ inodeId, inodeId ≠ "1" → inodeAt state inodeId = none
  dentries : ∀ key, dentryAt state key = none

lemma RootOnly.namespaceTree (honly : RootOnly state) : NamespaceTree state := by
  obtain ⟨hkeys, ⟨root, hroot, hkind, hlinks⟩, hinos, hdentries⟩ := honly
  have hrow : ∀ key, (layoutOf state).entry key = none := hdentries
  have hlink : ∀ {inodeId}, (layoutOf state).Linked inodeId → inodeId = "1" := by
    intro inodeId ⟨node, hnode, _⟩
    by_contra hother
    simp [layoutOf, hinos inodeId hother] at hnode
  refine ⟨hkeys, ?_, ⟨?_, ?_⟩⟩
  · constructor
    case finite => simp [hrow]
    case root_linked => exact linked_layoutOf hroot hkind (by simp [hlinks])
    case root_unnamed => simp [hrow]
    case target => simp [hrow]
    case parent_linked => simp [hrow]
    case loose_ne_root => simp
    case loose_linked => simp
    case loose_unnamed => simp
    case named => exact fun hname hother _ => absurd (hlink hname) hother
    case single => simp [hrow]
    case reaches => exact fun hname => .base (.inl (hlink hname))
    case counts =>
      intro inodeId node hnode _
      by_cases hother : inodeId = "1"
      · subst hother
        rw [node_layoutOf hroot] at hnode
        cases hnode
        simp [nodeOf, Node.own, hkind, hlinks, Layout.charged, hrow]
      · simp [layoutOf, hinos inodeId hother] at hnode
  · intro key inodeId hkey
    simp [hdentries] at hkey
  · intro key inodeId hkey
    simp [hdentries] at hkey

section System

variable [Hash] [RequestCodec]

/-- The namespace operations; new regular files start with one link. -/
def StartsNamespace (program : Service Unit) : Prop :=
  ∃ operation : NamespaceOperation, program = operation.program ∧
    ∀ request, operation = .create request → request.attributes.nlink = 1

/-- The store decides a transaction while no link count is saturated. -/
def DecidesUnsaturated [Footprint] (clock : ℕ) (state : State) (txn : MetaTxn)
    (next : State) (outcome : Result TxnOutcome) : Prop :=
  Decides clock state txn next outcome ∧ Unsaturated state

/-- What every run keeps: the tree, and keys in every state that may still be
read. -/
structure TreeInvariant (_clock : ℕ) (state : State) (seen : List State)
    (_log : List (MetaTxn × Result TxnOutcome)) : Prop where
  tree : NamespaceTree state
  keyed : ∀ view ∈ seen, WellKeyed view

/-- Over every interleaving of namespace operations, every published state holds
a directory tree with exact link counts. -/
theorem runs_keep_directory_tree [Footprint]
    {first last : World State MetaTxn (Result TxnOutcome) Error}
    {labels : List (Option (MetaTxn × Result TxnOutcome))}
    (hrun : Run (Step StartsNamespace DecidesUnsaturated Background) first labels last)
    (htasks : first.tasks = []) (hseen : first.seen = [first.state])
    (honly : RootOnly first.state) : DirectoryTree last.state := by
  have htraced : Traced StartsNamespace first := by
    refine ⟨by simp [hseen], ?_⟩
    rw [htasks]
    simp
  have hinv : TreeInvariant last.clock last.state last.seen
      labels.reduceOption := by
    refine run_safe (fun _ hinv => ⟨hinv.tree, hinv.keyed⟩) ?_ ?_ hrun htraced ?_
    · intro clock state next seen log _ hback hinv
      exact ⟨hinv.tree.background hback, List.forall_mem_cons.mpr
        ⟨hinv.tree.keyed.background hback, hinv.keyed⟩⟩
    · intro clock state next seen log program txn outcome _ hstart hoffer happlies hinv
      obtain ⟨operation, rfl, hlinks⟩ := hstart
      obtain ⟨hdecides, hroom⟩ := happlies
      have htxn : NamespaceTxn (· = 1) txn := operation.offers hinv.keyed hlinks hoffer
      exact ⟨hinv.tree.decides hroom htxn hdecides, List.forall_mem_cons.mpr
        ⟨hinv.tree.keyed.decides hdecides, hinv.keyed⟩⟩
    · exact ⟨honly.namespaceTree, by simpa [hseen] using honly.keyed⟩
  exact hinv.tree.directoryTree

end System

/-! ## A directory is made and renamed -/

/-- A store with the root directory of one namespace. -/
def rootStore : State := { State.default with
  revision := 1
  entities := ExtTreeMap.empty.insert (.dfsInode "1") ⟨1, .dfsInode (rootInode "default")⟩ }

lemma rootStore_entity? (hent : rootStore.entity? key = some entity) :
    key = .dfsInode "1" ∧ entity = .dfsInode (rootInode "default") := by
  simp only [rootStore, State.entity?, ExtTreeMap.getElem?_insert, Option.map_eq_some_iff] at hent
  obtain ⟨versioned, hver, rfl⟩ := hent
  split at hver
  next hkey =>
    cases hver
    exact ⟨(LawfulEqOrd.eq_of_compare hkey).symm, rfl⟩
  · simp at hver

lemma rootStore_rootOnly : RootOnly rootStore where
  keyed := by
    intro key entity hent _
    obtain ⟨rfl, rfl⟩ := rootStore_entity? hent
    rfl
  root := ⟨rootInode "default", by decide +kernel, rfl, rfl⟩
  inodes := by
    intro inodeId hother
    unfold inodeAt
    split
    next inode hent =>
      obtain ⟨hkey, _⟩ := rootStore_entity? hent
      exact absurd (MetaKey.dfsInode.inj hkey) hother
    · rfl
  dentries := by
    intro key
    unfold dentryAt
    split
    next dentry hent =>
      cases (rootStore_entity? hent).1
    · rfl

/-- Every inode stored in the state has room for another link. -/
def hasRoom (state : State) : Bool :=
  state.entities.values.all fun versioned =>
    match versioned.entity with
    | .dfsInode inode => decide (inode.attributes.nlink + 1 < 2 ^ 32)
    | _ => true

lemma unsaturated_of_hasRoom (hroom : hasRoom state = true) : Unsaturated state := by
  intro inodeId inode hino
  unfold inodeAt at hino
  split at hino
  next stored hent =>
    cases hino
    obtain ⟨versioned, hver, hput⟩ := Option.map_eq_some_iff.mp hent
    have hval := List.all_eq_true.mp hroom versioned (OrderedMap.mem_values.mpr ⟨_, hver⟩)
    simpa [hput] using hval
  · cases hino

def makeDirectory : NamespaceOperation :=
  .mkdir ⟨"n", "op1", "default", "1", [100], ⟨0o755, 0, 0, 0, 0, 0, 0⟩, ⟨0, 0, []⟩⟩

def renameDirectory : NamespaceOperation :=
  .rename ⟨"n", "op2", "default", "1", [100], "1", [101], .noReplace, ⟨0, 0, []⟩⟩

def renameSchedule : List (ℕ × Service Unit) :=
  letI := plainHash
  letI := plainRequests
  [(0, makeDirectory.program), (1, renameDirectory.program)]

/-- The renamed directory is there under its new name only, its parent counts
it, and the state is a directory tree. -/
theorem renamed_directory_tree : letI := plainFootprint
    letI := plainHash
    letI := plainRequests
    ∃ labels last, Run (Step StartsNamespace DecidesUnsaturated Background)
        ⟨0, rootStore, [rootStore], []⟩ labels last ∧
      dentryAt last.state ⟨"default", "1", [100]⟩ = none ∧
      (dentryAt last.state ⟨"default", "1", [101]⟩).isSome ∧
      (inodeAt last.state "1").map (fun inode => inode.attributes.nlink) = some 3 ∧
      DirectoryTree last.state := by
  let _ := plainFootprint
  let _ := plainHash
  let _ := plainRequests
  obtain ⟨labels, last, hrun, hstate, _, _⟩ :=
    @schedule_run _ _ _ _ StartsNamespace DecidesUnsaturated Background
      (fun _ state _ => hasRoom state) decideAt
      (fun clock state txn hroom => ⟨decides_decideAt clock state txn,
        unsaturated_of_hasRoom hroom⟩)
      renameSchedule
      (by
        intro item hitem
        simp only [renameSchedule, List.mem_cons, List.not_mem_nil, or_false] at hitem
        rcases hitem with rfl | rfl
        · exact ⟨makeDirectory, rfl, by simp [makeDirectory]⟩
        · exact ⟨renameDirectory, rfl, by simp [renameDirectory]⟩)
      ⟨0, rootStore, [rootStore], []⟩ (by simp [renameSchedule]) (by simp)
      (by decide +kernel)
  refine ⟨labels, last, hrun, ?_, ?_, ?_, runs_keep_directory_tree hrun rfl rfl rootStore_rootOnly⟩
  · rw [hstate]
    decide +kernel
  · rw [hstate]
    decide +kernel
  · rw [hstate]
    decide +kernel

end AgentDx.Dfs
