import AgentDx.Store.Recovery

/-!
# Decisions are recorded without loss or repetition

A captured decision is read back as it was, and what `validate` accepts is a pool
without repetitions in which every reference has a target and every value a
reference.  Two values share a position only if they are equal: a fingerprint
merely chooses the positions that are compared.
-/

namespace AgentDx.Store

open Dfs Result List

/-- No entity and no claim is restored from two positions. -/
structure StoredOnce (values : List PooledValue) : Prop where
  entity : ∀ {first second : ValueId} {entity : MetaEntity},
    restoreEntity values first = .ok entity → restoreEntity values second = .ok entity →
      first = second
  claim : ∀ {first second : ValueId} {claim : ReplicationClaim},
    restoreClaim values first = .ok claim → restoreClaim values second = .ok claim → first = second

/-- Pooled values refer to earlier ones, every reference is within the pool, and
every position is referred to. -/
structure Referenced (record : RecordDecision) : Prop where
  backward : ∀ (index : ℕ) (value : PooledValue), record.values[index]? = some value →
    ∀ id ∈ value.references, id < index
  within : ∀ id ∈ record.references, id < record.values.length
  covered : ∀ id < record.values.length, id ∈ record.references

lemma forM_eq_ok {A : Type} {items : List A} {check : A → Result Unit}
    (hchecks : items.forM check = .ok ()) : ∀ item ∈ items, check item = .ok () := by
  induction items with
  | nil => simp
  | cons head rest ih =>
    obtain ⟨_, hhd, hr⟩ := bind_eq_ok.mp hchecks
    exact forall_mem_cons.mpr ⟨hhd, ih hr⟩

variable {values : List PooledValue}

/-- Two pooled values that are not the same claim, nor restored to the same
entity. -/
def Apart (values : List PooledValue) (first second : PooledValue × ℕ) : Prop :=
  (∀ saved, first.1 = .claim saved → second.1 ≠ .claim saved) ∧
    ∀ entity, restoreEntity values first.2 = .ok entity → restoreEntity values second.2 ≠ .ok entity

lemma restoreEntity_claim {id} (hval : values[id]? = some (.claim saved)) :
    restoreEntity values id ≠ .ok entity := by
  simp [restoreEntity, hval]

lemma checkDistinct_apart {items claims} (hitems : ∀ item ∈ items, values[item.2]? = some item.1)
    (hdist : checkDistinct values items claims entities = .ok ()) :
    items.Pairwise (Apart values) ∧ (∀ item ∈ items, ∀ saved ∈ claims, item.1 ≠ .claim saved) ∧
      ∀ item ∈ items, ∀ entity ∈ entities, restoreEntity values item.2 ≠ .ok entity := by
  induction items generalizing claims entities with
  | nil => simp
  | cons head rest ih =>
    have hhd := hitems head mem_cons_self
    have hr : ∀ item ∈ rest, values[item.2]? = some item.1 :=
      fun item him => hitems item (mem_cons_of_mem _ him)
    obtain ⟨value, index⟩ := head
    cases value with
    | claim saved =>
      obtain ⟨_, hf, hdist⟩ := bind_eq_ok.mp hdist
      simp only [ensure_eq_ok, decide_eq_true_eq] at hf
      obtain ⟨hpa, hcl, hen⟩ := ih hr hdist
      refine ⟨pairwise_cons.mpr ⟨fun item him => ⟨?_, ?_⟩, hpa⟩,
        forall_mem_cons.mpr ⟨?_, ?_⟩, forall_mem_cons.mpr ⟨?_, hen⟩⟩
      · rintro _ ⟨⟩
        exact hcl item him saved mem_cons_self
      · intro entity het
        exact absurd het (restoreEntity_claim hhd)
      · rintro _ hh ⟨⟩
        exact hf hh
      · exact fun item him held hh => hcl item him held (mem_cons_of_mem _ hh)
      · exact fun entity _ => restoreEntity_claim hhd
    | entity _ | claimedTask _ _ =>
      obtain ⟨entity, het, hdist⟩ := bind_eq_ok.mp hdist
      obtain ⟨_, hf, hdist⟩ := bind_eq_ok.mp hdist
      simp only [ensure_eq_ok, decide_eq_true_eq] at hf
      obtain ⟨hpa, hcl, hen⟩ := ih hr hdist
      refine ⟨pairwise_cons.mpr ⟨fun item him => ⟨by simp, ?_⟩, hpa⟩,
        forall_mem_cons.mpr ⟨by simp, hcl⟩, forall_mem_cons.mpr ⟨?_, ?_⟩⟩
      · intro found hfn
        obtain rfl := Except.ok.inj (het.symm.trans hfn)
        exact hen item him entity mem_cons_self
      · intro held hh hfn
        obtain rfl := Except.ok.inj (het.symm.trans hfn)
        exact hf hh
      · exact fun item him held hh => hen item him held (mem_cons_of_mem _ hh)

lemma exists_of_restoreEntity {id} (hent : restoreEntity values id = .ok entity) :
    ∃ value, values[id]? = some value := by
  cases h : values[id]? with
  | none => simp [restoreEntity, h] at hent
  | some value => exact ⟨value, rfl⟩

instance : Std.Symm (Apart values) where
  symm _ _ hapart := ⟨fun saved hsecond hfirst => hapart.1 saved hfirst hsecond,
    fun entity hsecond hfirst => hapart.2 entity hfirst hsecond⟩

/-- Claims are compared as they are saved: equal ones refer to the same chunk and
configuration, which have one position each. -/
lemma StoredOnce.of_apart (hapart : ∀ {first second value other}, values[first]? = some value →
      values[second]? = some other → first ≠ second → Apart values (value, first) (other, second)) :
    StoredOnce values := by
  have hen : ∀ {first second : ValueId} {entity : MetaEntity},
      restoreEntity values first = .ok entity → restoreEntity values second = .ok entity →
        first = second := by
    intro first second entity hfs hsn
    obtain ⟨value, hvl⟩ := exists_of_restoreEntity hfs
    obtain ⟨other, ho⟩ := exists_of_restoreEntity hsn
    by_contra hne
    exact (hapart hvl ho hne).2 entity hfs hsn
  refine ⟨hen, fun {first second claim} hfs hsn => ?_⟩
  obtain ⟨left, chunk, replication, hlf, hch, hrp, rfl⟩ := restoreClaim_eq_ok.mp hfs
  obtain ⟨right, chunk', replication', hr, hch', hrp', heq⟩ := restoreClaim_eq_ok.mp hsn
  have hpl : ∀ {id : ValueId} {entity : MetaEntity}, carriesClaim entity = false →
      values[id]? = some (.entity entity) → restoreEntity values id = .ok entity :=
    fun hcr hvl => restoreEntity_eq_ok.mpr (.inl ⟨hvl, hcr⟩)
  obtain ⟨rfl, rfl⟩ : chunk = chunk' ∧ replication = replication' := by simp_all
  have hcn := hen (hpl rfl hch) (hpl rfl hch')
  have hre := hen (hpl rfl hrp) (hpl rfl hrp')
  have hsv : left = right := by
    cases left
    simp_all
  by_contra hne
  exact (hapart hlf hr hne).1 left rfl (congrArg PooledValue.claim hsv.symm)

section Accepted

variable [Codec] {record : RecordDecision}

lemma RecordDecision.validate_pool (hok : record.validate = .ok ()) :
    StoredOnce record.values ∧ Referenced record := by
  simp only [RecordDecision.validate, bind_eq_ok, ensure_eq_ok, all_eq_true,
    decide_eq_true_eq, mem_range] at hok
  obtain ⟨_, _, _, _, _, hpo, _, _, _, _, _, _, _, _, _, hwt, _, hcv, _, hds, _⟩ := hok
  have hie : ∀ item ∈ record.values.zipIdx, record.values[item.2]? = some item.1 :=
    fun item him => mem_zipIdx_iff_getElem?.mp him
  have hpa := (checkDistinct_apart hie hds).1
  refine ⟨.of_apart fun {first second value other} hfs hsn hne => ?_, ?_, hwt, hcv⟩
  · exact hpa.forall (mem_zipIdx_iff_getElem?.mpr hfs)
      (mem_zipIdx_iff_getElem?.mpr hsn) fun heq => hne (congrArg Prod.snd heq)
  · intro index value hvl id hid
    have hch := forM_eq_ok hpo (value, index) (mem_zipIdx_iff_getElem?.mpr hvl)
    obtain ⟨_, her, _⟩ := bind_eq_ok.mp hch
    simp only [ensure_eq_ok, all_eq_true, decide_eq_true_eq] at her
    exact her id hid

/-- A captured decision is accepted and read back as it was, with every value
stored once; and whatever is accepted has no forward, dangling or missing
reference. -/
theorem decision_round_trip (input : DecisionInput) (byteLimit : ℕ) (record : RecordDecision) :
    (RecordDecision.new input byteLimit = .ok record →
      record.validate = .ok () ∧ record.facts = .ok input ∧ StoredOnce record.values) ∧
    (record.validate = .ok () → Referenced record) := by
  refine ⟨fun hnew => ?_, fun hok => (RecordDecision.validate_pool hok).2⟩
  obtain ⟨hok, hfacts⟩ := RecordDecision.facts_new hnew
  exact ⟨hok, hfacts, (RecordDecision.validate_pool hok).1⟩

end Accepted

def emptyFile : InodeRecord := ⟨"n", "7", .regular, ⟨420, 0, 0, 1, 0, 0, 0⟩, none, none, [], 1⟩

/-- An inode is written and returned. -/
def returnedInode : DecisionInput where
  request := ⟨"caller", "request"⟩
  operation := .dfsCreate
  revisionBefore := 0
  revisionAfter := 1
  completedAtUnixMs := 5
  events := [⟨1, 0, .dfsInode "7", .put (.dfsInode emptyFile)⟩]
  outcomes := [⟨⟨"caller", "request"⟩, .dfsCreate, .dfsInode emptyFile⟩]
  reply := ⟨⟨"caller", "request"⟩, .dfsCreate, .dfsInode emptyFile⟩
  nodeEpochs := []

/-- Both uses share one position. -/
theorem returned_inode_stored_once : letI := plainCodec
    ∃ record, RecordDecision.new returnedInode 65536 = .ok record ∧ record.values.length = 1 ∧
      record.facts = .ok returnedInode ∧ StoredOnce record.values ∧ Referenced record := by
  let _ := plainCodec
  have hnum : (RecordDecision.new returnedInode 65536).map (·.values.length) = .ok 1 := by
    decide +kernel
  cases hnew : RecordDecision.new returnedInode 65536 with
  | error error =>
    rw [hnew] at hnum
    cases hnum
  | ok record =>
    rw [hnew] at hnum
    obtain ⟨hround, hreferences⟩ := decision_round_trip returnedInode 65536 record
    obtain ⟨hok, hfacts, honce⟩ := hround hnew
    exact ⟨record, rfl, Except.ok.inj hnum, hfacts, honce, hreferences hok⟩

end AgentDx.Store
