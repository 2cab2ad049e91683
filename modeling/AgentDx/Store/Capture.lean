import AgentDx.Store.Decision

/-!
# A record stands for exactly what was captured

Pools only grow, and a position keeps the value it was given, so whatever was
pooled can be restored later.  From this follows the round trip of a decision:
the facts of a captured record are the captured input, whatever the fingerprints
are.
-/

namespace AgentDx.Store

open Dfs Std Word Result List Pool

variable {A : Type}

lemma getElem?_of_extension {id : ℕ} (hext : short <+: long) (hval : short[id]? = some value) :
    long[id]? = some value := by
  obtain ⟨hid, rfl⟩ := List.getElem?_eq_some_iff.mp hval
  exact prefix_iff_getElem?.mp hext id hid

variable {values : List PooledValue} {id : ValueId} {claim : ReplicationClaim}

lemma restoreClaim_eq_ok : restoreClaim values id = .ok claim ↔ ∃ saved chunk replication,
        values[id]? = some (.claim saved) ∧
        values[saved.chunk]? = some (.entity (.dfsChunk chunk)) ∧
        values[saved.replication]? = some (.entity (.dfsReplicationConfig replication)) ∧ claim = {
          taskId := saved.taskId
          operationId := saved.operationId
          workerNodeId := saved.workerNodeId
          workerNodeEpoch := saved.workerNodeEpoch
          workerSessionId := saved.workerSessionId
          expiresAtUnixMs := saved.expiresAtUnixMs
          fence := saved.fence
          chunk := chunk
          sourceCopyId := saved.sourceCopyId
          placementRevision := saved.placementRevision
          replicaGroup := saved.replicaGroup
          replication := replication } := by
  unfold restoreClaim
  constructor
  · intro hrs
    split at hrs
    next saved hsv =>
      split at hrs
      next chunk hch =>
        split at hrs
        next replication hrp =>
          refine ⟨saved, chunk, replication, hsv, hch, hrp, ?_⟩
          exact (Except.ok.inj hrs).symm
        · cases hrs
      · cases hrs
    · cases hrs
  · rintro ⟨saved, chunk, replication, hsv, hch, hrp, rfl⟩
    simp only [hsv, hch, hrp]

lemma restoreClaim_of_extension (hext : short <+: long)
    (hback : restoreClaim short id = .ok claim) :
    restoreClaim long id = .ok claim := by
  obtain ⟨saved, chunk, replication, hsv, hch, hrp, hcm⟩ := restoreClaim_eq_ok.mp hback
  exact restoreClaim_eq_ok.mpr ⟨saved, chunk, replication,
    getElem?_of_extension hext hsv, getElem?_of_extension hext hch,
    getElem?_of_extension hext hrp, hcm⟩

variable {entity : MetaEntity}

lemma restoreEntity_eq_ok : restoreEntity values id = .ok entity ↔
      (values[id]? = some (.entity entity) ∧ carriesClaim entity = false) ∨
      ∃ task position claim, values[id]? = some (.claimedTask task position) ∧ task.claim = none ∧
        restoreClaim values position = .ok claim ∧
        entity = .dfsReplicationTask { task with claim := some claim } := by
  unfold restoreEntity
  constructor
  · intro hrs
    split at hrs
    next stored hst =>
      split at hrs
      · cases hrs
      next hpl =>
        cases hrs
        exact .inl ⟨hst, by simpa using hpl⟩
    next task position hst =>
      split at hrs
      · cases hrs
      next hnn =>
        obtain ⟨claim, hcm, hen⟩ := bind_eq_ok.mp hrs
        refine .inr ⟨task, position, claim, hst, by simpa using hnn, hcm, ?_⟩
        exact (Except.ok.inj hen).symm
    · cases hrs
  · rintro (⟨hst, hpl⟩ | ⟨task, position, claim, hst, hnn, hcm, rfl⟩)
    · simp [hst, hpl]
    · simp [hst, hnn, hcm, bind, Except.bind, pure, Except.pure]

lemma restoreEntity_of_extension {short long} (hext : short <+: long)
    (hback : restoreEntity short id = .ok entity) : restoreEntity long id = .ok entity := by
  rcases restoreEntity_eq_ok.mp hback with
    ⟨hst, hpl⟩ | ⟨task, position, claim, hst, hnn, hcm, hen⟩
  · exact restoreEntity_eq_ok.mpr (.inl ⟨getElem?_of_extension hext hst, hpl⟩)
  · exact restoreEntity_eq_ok.mpr (.inr ⟨task, position, claim, getElem?_of_extension hext hst, hnn,
      restoreClaim_of_extension hext hcm, hen⟩)

lemma findRestored_eq_some [DecidableEq A] {wanted : A}
    (hfind : findRestored restore wanted ids = .ok (some id)) : restore id = .ok wanted := by
  induction ids with
  | nil => cases hfind
  | cons candidate ids ih =>
    obtain ⟨value, hvl, hr⟩ := bind_eq_ok.mp hfind
    split at hr
    next heq =>
      cases hr
      exact heq ▸ hvl
    · exact ih hr

/-! ## What insertion does to a pool -/

variable {pool next : Pool}

section Insert

variable [codec : Codec]

lemma Pool.push_eq_ok (hpush : pool.push value = .ok (next, id)) :
    next.values = pool.values ++ [value] ∧ id = pool.values.length := by
  simp only [Pool.push, bind_eq_ok] at hpush
  obtain ⟨_, _, _, _, _, _, h⟩ := hpush
  cases h
  exact ⟨rfl, rfl⟩

lemma Pool.push_restores {value} (hpush : pool.push value = .ok (next, id)) :
    pool.values <+: next.values ∧ next.values[id]? = some value := by
  obtain ⟨h, rfl⟩ := push_eq_ok hpush
  rw [h]
  exact ⟨prefix_append _ _, by simp⟩

/-- Insertion returns a position that restores to the entity, provided the
value built for a new entity does. -/
lemma Pool.insertWith_restores {build}
    (hbuild : ∀ grown value, build pool = .ok (grown, value) → pool.values <+: grown.values ∧
      ∀ long : List PooledValue, grown.values <+: long → long[grown.values.length]? = some value →
        restoreEntity long grown.values.length = .ok entity)
    (hadd : pool.insertWith entity build = .ok (next, id)) :
    pool.values <+: next.values ∧ restoreEntity next.values id = .ok entity := by
  obtain ⟨found, hfn, hadd⟩ := bind_eq_ok.mp hadd
  cases found with
  | some position =>
    cases hadd
    exact ⟨prefix_rfl, findRestored_eq_some hfn⟩
  | none =>
    obtain ⟨_, _, hadd⟩ := bind_eq_ok.mp hadd
    obtain ⟨⟨grown, value⟩, hgr, hadd⟩ := bind_eq_ok.mp hadd
    obtain ⟨⟨pushed, position⟩, hps, hnx⟩ := bind_eq_ok.mp hadd
    cases hnx
    obtain ⟨hgw, hrs⟩ := hbuild grown value hgr
    obtain ⟨hex, hvl⟩ := push_restores hps
    obtain ⟨_, rfl⟩ := push_eq_ok hps
    exact ⟨hgw.trans hex, hrs _ hex hvl⟩

lemma Pool.insertPlain_restores (hplain : carriesClaim entity = false)
    (hadd : pool.insertPlain entity = .ok (next, id)) :
    pool.values <+: next.values ∧ restoreEntity next.values id = .ok entity := by
  refine insertWith_restores ?_ hadd
  intro grown value hbu
  cases hbu
  refine ⟨prefix_rfl, ?_⟩
  intro long _ hvl
  exact restoreEntity_eq_ok.mpr (.inl ⟨hvl, hplain⟩)

lemma Pool.insertClaim_restores (hadd : pool.insertClaim claim = .ok (next, id)) :
    pool.values <+: next.values ∧ restoreClaim next.values id = .ok claim := by
  obtain ⟨found, hfn, hadd⟩ := bind_eq_ok.mp hadd
  cases found with
  | some position =>
    cases hadd
    exact ⟨prefix_rfl, findRestored_eq_some hfn⟩
  | none =>
    obtain ⟨⟨first, chunk⟩, hch, hadd⟩ := bind_eq_ok.mp hadd
    obtain ⟨⟨second, replication⟩, hrp, hadd⟩ := bind_eq_ok.mp hadd
    obtain ⟨⟨pushed, position⟩, hps, hnx⟩ := bind_eq_ok.mp hadd
    cases hnx
    obtain ⟨hfs, hch⟩ := insertPlain_restores rfl hch
    obtain ⟨hsn, hrp⟩ := insertPlain_restores rfl hrp
    obtain ⟨hex, hvl⟩ := push_restores hps
    refine ⟨(hfs.trans hsn).trans hex, ?_⟩
    have hch' := restoreEntity_of_extension (hsn.trans hex) hch
    have hrp' := restoreEntity_of_extension hex hrp
    rw [restoreEntity_eq_ok] at hch' hrp'
    refine restoreClaim_eq_ok.mpr ⟨_, claim.chunk, claim.replication, hvl, ?_, ?_, rfl⟩
    · simpa [carriesClaim] using hch'
    · simpa [carriesClaim] using hrp'

lemma Pool.insert_restores (hadd : pool.insert entity = .ok (next, id)) :
    pool.values <+: next.values ∧ restoreEntity next.values id = .ok entity := by
  unfold Pool.insert at hadd
  split at hadd
  next task =>
    split at hadd
    next claim hcm =>
      refine insertWith_restores ?_ hadd
      intro grown value hbu
      obtain ⟨⟨claimed, position⟩, hie, hvl⟩ := bind_eq_ok.mp hbu
      cases hvl
      obtain ⟨hgr, hrs⟩ := insertClaim_restores hie
      refine ⟨hgr, ?_⟩
      intro long hex hst
      refine restoreEntity_eq_ok.mpr (.inr ⟨_, position, claim, hst, rfl,
        restoreClaim_of_extension hex hrs, ?_⟩)
      rw [← hcm]
    next hnn =>
      exact insertPlain_restores (by simp [carriesClaim, hnn]) hadd
  next ht =>
    apply insertPlain_restores _ hadd
    cases entity with
    | dfsReplicationTask task => exact absurd rfl (ht task)
    | _ => rfl

end Insert

/-! ## Round trip of a decision -/

lemma flattenNamespace_wrap (result) :
    wrapNamespace (flattenNamespace result).1 (flattenNamespace result).2 = result := by
  induction result with
  | dfsNamespace digest result ih =>
    simp only [flattenNamespace, wrapNamespace, foldr_cons]
    exact congrArg (OperationResult.dfsNamespace digest) ih
  | _ => rfl

lemma restoreAs_of_restoreEntity (hback : restoreEntity values id = .ok entity)
    (hproject : project entity = some value) : restoreAs values id project = .ok value := by
  unfold restoreAs
  rw [bind_eq_ok]
  exact ⟨entity, hback, by simp [hproject]⟩

section RoundTrip

variable [codec : Codec]

/-- A result that is saved through one entity, and restored by projecting that
entity back, survives the round trip. -/
private lemma saveEntity_restores {saved : ValueId → SavedResult} (project)
    (wrap : A → OperationResult)
    (hshape : ∀ long id, (saved id).restore long = (do return wrap (← restoreAs long id project)))
    (hproject : project entity = some value) (hsave : (do
      let (pool, id) ← pool.insert entity
      return (pool, saved id)) = Except.ok (next, result)) : pool.values <+: next.values ∧
      ∀ long : List PooledValue, next.values <+: long → result.restore long = .ok (wrap value) := by
  obtain ⟨⟨inserted, id⟩, hin, hrs⟩ := bind_eq_ok.mp hsave
  cases hrs
  obtain ⟨hex, hrt⟩ := insert_restores hin
  refine ⟨hex, ?_⟩
  intro long hln
  rw [hshape, bind_eq_ok]
  exact ⟨value, restoreAs_of_restoreEntity (restoreEntity_of_extension hln hrt) hproject, rfl⟩

/-- Two entities inserted one after the other are both restorable at the end. -/
private lemma saveTwo_restores (hone : pool.insert first = .ok (middle, firstId))
    (htwo : middle.insert second = .ok (next, secondId)) :
    pool.values <+: next.values ∧ ∀ long : List PooledValue, next.values <+: long →
        restoreEntity long firstId = .ok first ∧ restoreEntity long secondId = .ok second := by
  obtain ⟨hpl, hone⟩ := insert_restores hone
  obtain ⟨hmd, htwo⟩ := insert_restores htwo
  refine ⟨hpl.trans hmd, ?_⟩
  intro long hln
  exact ⟨restoreEntity_of_extension (hmd.trans hln) hone, restoreEntity_of_extension hln htwo⟩

lemma Pool.saveResult_restores {saved} (hsave : pool.saveResult result = .ok (next, saved)) :
    pool.values <+: next.values ∧ ∀ long : List PooledValue, next.values <+: long →
        saved.restore long = .ok result := by
  cases result with
  | dfsNamespace digest result => cases hsave
  | nodeSession value =>
    exact saveEntity_restores MetaEntity.nodeSession? .nodeSession (fun _ _ => rfl) rfl hsave
  | rootReservation value =>
    exact saveEntity_restores MetaEntity.rootReservation? .rootReservation
      (fun _ _ => rfl) rfl hsave
  | rootRecord value =>
    exact saveEntity_restores MetaEntity.root? .rootRecord (fun _ _ => rfl) rfl hsave
  | rootGrant value =>
    exact saveEntity_restores MetaEntity.rootGrant? .rootGrant (fun _ _ => rfl) rfl hsave
  | rootCommand value =>
    exact saveEntity_restores MetaEntity.rootCommand? .rootCommand (fun _ _ => rfl) rfl hsave
  | rootCommandAck value =>
    exact saveEntity_restores MetaEntity.rootCommandAck? .rootCommandAck (fun _ _ => rfl) rfl hsave
  | dfsInode value =>
    exact saveEntity_restores MetaEntity.dfsInode? .dfsInode (fun _ _ => rfl) rfl hsave
  | dfsInodeWithLease inode lease =>
    obtain ⟨⟨middle, inodeId⟩, hin, hsave⟩ := bind_eq_ok.mp hsave
    obtain ⟨⟨last, leaseId⟩, hls, hsave⟩ := bind_eq_ok.mp hsave
    cases hsave
    obtain ⟨hex, hrs⟩ := saveTwo_restores hin hls
    refine ⟨hex, ?_⟩
    intro long hln
    obtain ⟨hin, hls⟩ := hrs long hln
    simp only [SavedResult.restore, bind_eq_ok]
    exact ⟨inode, restoreAs_of_restoreEntity hin rfl, lease,
      restoreAs_of_restoreEntity hls rfl, rfl⟩
  | dfsWriteLease value =>
    exact saveEntity_restores MetaEntity.dfsWriteLease? .dfsWriteLease (fun _ _ => rfl) rfl hsave
  | dfsReplicationClaim requestDigest claim =>
    cases claim with
    | none =>
      cases hsave
      exact ⟨prefix_rfl, fun _ _ => rfl⟩
    | some claim =>
      obtain ⟨⟨last, id⟩, hadd, hsave⟩ := bind_eq_ok.mp hsave
      cases hsave
      obtain ⟨hex, hrs⟩ := insertClaim_restores hadd
      refine ⟨hex, ?_⟩
      intro long hln
      simp only [SavedResult.restore, bind_eq_ok]
      exact ⟨claim, restoreClaim_of_extension hln hrs, rfl⟩
  | dfsReplicationTask value =>
    exact saveEntity_restores MetaEntity.dfsReplicationTask?
      .dfsReplicationTask (fun _ _ => rfl) rfl hsave
  | dfsRename outcome =>
    obtain ⟨inode, replaced⟩ := outcome
    cases replaced with
    | none =>
      let wrap (inode : InodeRecord) : OperationResult := .dfsRename ⟨inode, none⟩
      have hsh : ∀ (long : List PooledValue) (id : ValueId),
          (SavedResult.dfsRename id none).restore long =
            (do return wrap (← restoreAs long id MetaEntity.dfsInode?)) :=
        fun _ _ => rfl
      exact saveEntity_restores MetaEntity.dfsInode? wrap hsh rfl hsave
    | some replaced =>
      obtain ⟨⟨middle, inodeId⟩, hin, hsave⟩ := bind_eq_ok.mp hsave
      obtain ⟨⟨last, replacedId⟩, hrp, hsave⟩ := bind_eq_ok.mp hsave
      cases hsave
      obtain ⟨hex, hrs⟩ := saveTwo_restores hin hrp
      refine ⟨hex, ?_⟩
      intro long hln
      obtain ⟨hin, hrp⟩ := hrs long hln
      simp only [SavedResult.restore, bind_eq_ok]
      exact ⟨inode, restoreAs_of_restoreEntity hin rfl, replaced,
        restoreAs_of_restoreEntity hrp rfl, rfl⟩
  | empty =>
    cases hsave
    exact ⟨prefix_rfl, fun _ _ => rfl⟩

lemma SavedOutcome.save_restores (hsave : SavedOutcome.save outcome pool = .ok (next, saved)) :
    pool.values <+: next.values ∧ ∀ long : List PooledValue, next.values <+: long →
        saved.restore long = .ok outcome := by
  obtain ⟨_, hns, hsave⟩ := bind_eq_ok.mp hsave
  obtain ⟨⟨last, result⟩, hrs, hsave⟩ := bind_eq_ok.mp hsave
  cases hsave
  obtain ⟨hex, hrt⟩ := saveResult_restores hrs
  refine ⟨hex, ?_⟩
  intro long hln
  simp only [SavedOutcome.restore, bind_eq_ok]
  refine ⟨_, hrt long hln, (), by simpa using hns, ?_⟩
  simp [flattenNamespace_wrap]

lemma captureOutcomes_restores (hcap : captureOutcomes outcomes pool = .ok (next, saved)) :
    pool.values <+: next.values ∧ ∀ long : List PooledValue, next.values <+: long →
        saved.mapM (fun outcome => outcome.restore long) = .ok outcomes := by
  induction outcomes generalizing pool saved with
  | nil =>
    cases hcap
    exact ⟨prefix_rfl, fun _ _ => rfl⟩
  | cons outcome outcomes ih =>
    obtain ⟨⟨first, head⟩, hhd, hcap⟩ := bind_eq_ok.mp hcap
    obtain ⟨⟨last, tail⟩, htl, hcap⟩ := bind_eq_ok.mp hcap
    cases hcap
    obtain ⟨hfs, hhd⟩ := SavedOutcome.save_restores hhd
    obtain ⟨hls, htl⟩ := ih htl
    refine ⟨hfs.trans hls, ?_⟩
    intro long hln
    simp only [mapM_cons, bind_eq_ok]
    exact ⟨outcome, hhd long (hls.trans hln), outcomes, htl long hln, rfl⟩

lemma captureChange_restores (hcap : captureChange event pool = .ok (next, change)) :
    pool.values <+: next.values ∧ ∀ long : List PooledValue, next.values <+: long →
        change.restore long = .ok (event.key, event.change) := by
  unfold captureChange at hcap
  split at hcap
  next entity hch =>
    obtain ⟨_, _, hcap⟩ := bind_eq_ok.mp hcap
    obtain ⟨⟨inserted, id⟩, hin, hcap⟩ := bind_eq_ok.mp hcap
    cases hcap
    obtain ⟨hex, hrs⟩ := insert_restores hin
    refine ⟨hex, ?_⟩
    intro long hln
    rw [hch]
    exact bind_eq_ok.mpr ⟨entity, restoreEntity_of_extension hln hrs, rfl⟩
  next hch =>
    cases hcap
    refine ⟨prefix_rfl, ?_⟩
    intro long _
    rw [hch]
    rfl

/-- The captured changes restore to the captured events, in order and with
their numbering. -/
lemma captureEvents_restores
    (hcap : captureEvents revisionAfter start offset events pool = .ok (next, changes)) :
    pool.values <+: next.values ∧ ∀ record : RecordDecision, next.values <+: record.values →
        record.revisionAfter = revisionAfter → record.eventIndexStart = start →
        (changes.zipIdx offset).mapM record.restoreChange = .ok events := by
  induction events generalizing offset pool changes with
  | nil =>
    cases hcap
    exact ⟨prefix_rfl, fun _ _ _ _ => rfl⟩
  | cons event events ih =>
    obtain ⟨_, hnm, hcap⟩ := bind_eq_ok.mp hcap
    obtain ⟨⟨first, change⟩, hch, hcap⟩ := bind_eq_ok.mp hcap
    obtain ⟨⟨last, tail⟩, htl, hcap⟩ := bind_eq_ok.mp hcap
    cases hcap
    obtain ⟨hfs, hch⟩ := captureChange_restores hch
    obtain ⟨hls, htl⟩ := ih htl
    simp only [ensure_eq_ok, decide_eq_true_eq] at hnm
    obtain ⟨hrv, hbd, hix⟩ := hnm
    refine ⟨hfs.trans hls, ?_⟩
    intro record hln ha hin
    have hhd : record.restoreChange (change, offset) = .ok event := by
      refine bind_eq_ok.mpr ⟨_, hch record.values (hls.trans hln), ?_⟩
      refine bind_eq_ok.mpr ⟨(), by simpa [hin] using hbd, ?_⟩
      rw [hin, ha, hix, ← hrv]
      rfl
    simp only [zipIdx_cons, mapM_cons, bind_eq_ok]
    exact ⟨event, hhd, events, htl record hln ha hin, rfl⟩

lemma RecordDecision.facts_new (hnew : RecordDecision.new input byteLimit = .ok record) :
    record.validate = .ok () ∧ record.facts = .ok input := by
  obtain ⟨⟨first, changes⟩, hev, hnew⟩ := bind_eq_ok.mp hnew
  obtain ⟨_, hrp, hnew⟩ := bind_eq_ok.mp hnew
  obtain ⟨⟨last, saved⟩, hot, hnew⟩ := bind_eq_ok.mp hnew
  obtain ⟨_, hv, hnew⟩ := bind_eq_ok.mp hnew
  obtain ⟨_, _, hnew⟩ := bind_eq_ok.mp hnew
  cases hnew
  simp only [ensure_eq_ok, decide_eq_true_eq] at hrp
  obtain ⟨_, hev⟩ := captureEvents_restores hev
  obtain ⟨hfs, hot⟩ := captureOutcomes_restores hot
  refine ⟨hv, ?_⟩
  simp only [RecordDecision.facts, bind_eq_ok]
  refine ⟨(), hv, input.events, hev _ hfs rfl rfl, input.outcomes,
    hot _ prefix_rfl, input.reply, ?_, rfl⟩
  simp [getElem?_eq_getElem hrp.1]

end RoundTrip

end AgentDx.Store
