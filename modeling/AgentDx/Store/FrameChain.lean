import AgentDx.Store.Journal

/-!
# The chain of frames

What was encoded at a position of a log is decoded there and nowhere else: the
envelope is read back from the payload, and it names the log, the position and
the hash before it.  A batch is decoded frame by frame to the records it was
made of, and ends where the encoder said.
-/

namespace AgentDx.Store

open List hiding sum
open Dfs Bytes Word Result Option

/-! ## Reading an envelope back -/

lemma readId_fits (id) : Fits readId idBytes id := @readArray_fits 16 id

lemma readDigest_fits (digest) : Fits readDigest digestBytes digest := @readArray_fits 32 digest

@[simp]
lemma length_digestBytes (digest) : (digestBytes digest).length = 32 :=
  @length_arrayBytes 32 digest

@[simp]
lemma length_identityBytes (identity) : (identityBytes identity).length = 48 := by
  simp only [identityBytes, length_append]
  rw [idBytes, idBytes, idBytes, @length_arrayBytes 16, @length_arrayBytes 16,
    @length_arrayBytes 16]

lemma readIdentity_fits (identity) : Fits readIdentity identityBytes identity := by
  intro rest
  simp only [identityBytes, append_assoc, readIdentity]
  rw [readId_fits identity.storeId]
  simp only [bind_eq_bind, bind_some]
  rw [readId_fits identity.clusterId]
  simp only [bind_some]
  rw [readId_fits identity.incarnation]
  rfl

lemma readWord_fits (hval : value < size) : Fits (readVarint 1 10) (varint 10) value := by
  apply readVarint_fits (by decide)
  calc value < size := hval
    _ = 128 ^ 9 * (1 + 1) := by decide

section Frames

variable {R : Type} [LogRecord R] [Wire R] [LawfulWire R]

/-- The numbers of an envelope fit their words. -/
structure Envelope.Bounded (envelope : Envelope R) : Prop where
  version : envelope.version < 2 ^ 16
  sequence : envelope.sequence < size
  baseSequence : envelope.baseSequence < size
  term : envelope.term < size

omit [LogRecord R] in
lemma readEnvelope_fits {envelope : Envelope R} (hbound : envelope.Bounded) :
    Fits readEnvelope Envelope.bytes envelope := by
  intro rest
  have h : Fits (readVarint 3 3) (varint 3) envelope.version := by
    apply readVarint_fits (by decide)
    calc envelope.version < 2 ^ 16 := hbound.version
      _ = 128 ^ 2 * (3 + 1) := by decide
  simp only [Envelope.bytes, append_assoc, readEnvelope]
  rw [h]
  simp only [bind_eq_bind, bind_some]
  rw [readIdentity_fits envelope.identity]
  simp only [bind_some]
  rw [readWord_fits hbound.sequence]
  simp only [bind_some]
  rw [readWord_fits hbound.baseSequence]
  simp only [bind_some]
  rw [readWord_fits hbound.term]
  simp only [bind_some]
  rw [readDigest_fits envelope.previousHash]
  simp only [bind_some]
  rw [LawfulWire.roundTrip envelope.decision]
  rfl

/-! ## Opening a frame -/

variable {payload : List UInt8} {limit : ℕ}

omit [LogRecord R] [LawfulWire R] in
lemma length_frameBytes :
    (frameBytes (R := R) payload).length = payload.length + frameOverhead := by
  simp only [frameBytes, length_append, length_bigEndian, length_digestBytes, frameOverhead]
  omega

omit [LogRecord R] [LawfulWire R] in
lemma take_frameBytes (rest) :
    (frameBytes (R := R) payload ++ rest).take 4 = bigEndian 4 (payload.length + 32) := by
  rw [frameBytes, append_assoc]
  exact take_left' (length_bigEndian _ _)

omit [LogRecord R] [LawfulWire R] in
lemma frameLength_frameBytes (hword : payload.length + 32 < 2 ^ 32) (rest) {length} :
    frameLength (frameBytes (R := R) payload ++ rest) limit = .ok length ↔
      length = payload.length + frameOverhead ∧ length ≤ limit := by
  have hrd : fromBigEndian ((frameBytes (R := R) payload ++ rest).take 4) =
      payload.length + 32 := by
    rw [take_frameBytes]
    exact fromBigEndian_bigEndian (hword.trans_eq (by norm_num))
  have hfr : 4 ≤ (frameBytes (R := R) payload ++ rest).length := by
    rw [length_append, length_frameBytes, frameOverhead]
    omega
  have hsz : payload.length + 32 + 8 < size := by
    rw [size]
    omega
  simp only [frameLength, hrd, hfr, bind_eq_ok, ensure_eq_ok,
    okOr_eq_ok, checkedAdd_eq_some, decide_eq_true_eq, pure_eq_ok]
  constructor
  · rintro ⟨_, _, _, ⟨_, rfl⟩, _, ⟨_, hle⟩, rfl⟩
    exact ⟨rfl, hle⟩
  · rintro ⟨rfl, hle⟩
    refine ⟨(), trivial, _, ⟨hsz, rfl⟩, (), ⟨?_, hle⟩, rfl⟩
    rw [frameOverhead]
    omega

omit [LogRecord R] [LawfulWire R] in
lemma frameBytes_parts :
    let length := bigEndian 4 (payload.length + 32)
    let hash := digestBytes (recordHash R payload)
    let frame := frameBytes (R := R) payload
    frame.take 4 = length ∧
      (frame.drop 4).take 4 = bigEndian 4 (frameCrc R length (payload ++ hash)) ∧
      frame.drop 8 = payload ++ hash ∧ (frame.take (frame.length - 32)).drop 8 = payload ∧
      frame.drop (frame.length - 32) = hash := by
  intro length hash frame
  have hln : length.length = 4 := length_bigEndian _ _
  have hcr : (bigEndian 4 (frameCrc R length (payload ++ hash))).length = 4 := length_bigEndian _ _
  have hfr : frame = length ++
      (bigEndian 4 (frameCrc R length (payload ++ hash)) ++ (payload ++ hash)) := rfl
  have hdr : frame.drop 8 = payload ++ hash := by
    rw [hfr, ← append_assoc]
    exact drop_left' (by rw [length_append, hln, hcr])
  have htt : frame.length - 32 = 8 + payload.length := by
    rw [length_frameBytes, frameOverhead]
    omega
  refine ⟨?_, ?_, hdr, ?_, ?_⟩
  · rw [hfr]
    exact take_left' hln
  · rw [hfr, drop_left' hln]
    exact take_left' hcr
  · rw [htt, drop_take, hdr, Nat.add_sub_cancel_left]
    exact take_left' rfl
  · rw [htt, ← drop_drop, hdr]
    exact drop_left' rfl

omit [LogRecord R] [LawfulWire R] in
lemma openFrame_frameBytes (hword : payload.length + 32 < 2 ^ 32) {opened} :
    openFrame (R := R) (frameBytes (R := R) payload) limit = .ok opened ↔
      opened = payload ∧ payload.length + frameOverhead ≤ limit := by
  obtain ⟨htk, hmd, hdr, hpy, hhs⟩ := @frameBytes_parts R _ payload
  have hln : ∀ length, frameLength (frameBytes (R := R) payload) limit = .ok length ↔
        length = payload.length + frameOverhead ∧ length ≤ limit := by
    intro length
    have hpr := @frameLength_frameBytes R _ payload limit hword [] length
    rwa [append_nil] at hpr
  have hcr : fromBigEndian (bigEndian 4 (frameCrc R
      (bigEndian 4 (payload.length + 32))
      (payload ++ digestBytes (recordHash R payload)))) =
      frameCrc R (bigEndian 4 (payload.length + 32))
        (payload ++ digestBytes (recordHash R payload)) := by
    apply fromBigEndian_bigEndian
    exact (UInt32.toNat_lt _).trans_eq (by norm_num)
  simp only [openFrame, htk, hmd, hdr, hpy, hhs, hcr,
    bind_eq_ok, ensure_eq_ok, decide_eq_true_eq, pure_eq_ok, hln]
  constructor
  · rintro ⟨_, ⟨rfl, hle⟩, _, _, _, _, _, _, rfl⟩
    exact ⟨rfl, hle⟩
  · rintro ⟨rfl, hle⟩
    exact ⟨_, ⟨rfl, hle⟩, (), length_frameBytes, (), trivial, (), trivial, rfl⟩

/-! ## Encoded frames -/

variable {identity : StoreIdentity} {tip next : LogTip} {record : R}
  {frame : List UInt8}

/-- What a successful encoding made. -/
structure Encoded (identity : StoreIdentity) (tip : LogTip) (record : R)
    (limit : ℕ) (frame : List UInt8) (next : LogTip) : Prop where
  valid : LogRecord.validate record = .ok ()
  sequence : tip.sequence + 1 < size
  room : (envelopeAfter identity tip (tip.sequence + 1) record).bytes.length + frameOverhead ≤ limit
  word : (envelopeAfter identity tip (tip.sequence + 1) record).bytes.length + 32 < 2 ^ 32
  frame : frame = frameBytes (R := R) (envelopeAfter identity tip (tip.sequence + 1) record).bytes
  next : next = ⟨tip.sequence + 1, recordHash R
    (envelopeAfter identity tip (tip.sequence + 1) record).bytes⟩

omit [LawfulWire R] in
lemma encodeFrame_ok : encodeFrame identity tip record limit = .ok (frame, next) ↔
      Encoded identity tip record limit frame next := by
  simp only [encodeFrame, encodeBounded, bind_eq_ok, okOr_eq_ok,
    checkedAdd_eq_some, checkedSub_eq_some, ensure_eq_ok, decide_eq_true_eq,
    pure_eq_ok, Prod.mk.injEq]
  constructor
  · rintro ⟨_, hv, _, ⟨hsq, rfl⟩, _, ⟨hov, rfl⟩, payload, hpy, _, hwr, hfr, hnx⟩
    split at hpy
    · cases hpy
    next hrm =>
      cases hpy
      refine ⟨hv, hsq, ?_, hwr, hfr.symm, hnx.symm⟩
      omega
  · rintro ⟨hv, hsq, hrm, hwr, hfr, hnx⟩
    have hft : ¬ limit - frameOverhead <
        (envelopeAfter identity tip (tip.sequence + 1) record).bytes.length := by
      omega
    refine ⟨(), hv, _, ⟨hsq, rfl⟩, _, ⟨by omega, rfl⟩, _, if_neg hft, (), hwr, hfr.symm, hnx.symm⟩

omit [LogRecord R] [Wire R] [LawfulWire R] in
lemma continues_iff : envelope.continues identity tip = true ↔
      envelope = envelopeAfter identity tip (tip.sequence + 1)
        envelope.decision ∧ tip.sequence + 1 < size := by
  obtain ⟨version, named, sequence, base, term, hash, decision⟩ := envelope
  simp only [Envelope.continues, envelopeAfter, Bool.and_eq_true,
    decide_eq_true_eq, checkedAdd_eq_some, Envelope.mk.injEq, and_true]
  tauto

/-- A frame is accepted where it was encoded, for what it was encoded from, and
nowhere else. -/
lemma Encoded.decode_iff (hencoded : Encoded identity tip record limit frame next) :
    decodeFrame otherIdentity otherTip frame otherLimit = .ok (decoded, otherNext) ↔
      frame.length ≤ otherLimit ∧ otherIdentity = identity ∧ otherTip = tip ∧
        decoded = record ∧ otherNext = next := by
  obtain ⟨hv, hsq, _, hwr, rfl, rfl⟩ := hencoded
  have hbo : (envelopeAfter identity tip (tip.sequence + 1) record).Bounded :=
    ⟨show logVersion < 2 ^ 16 by decide, hsq,
      show tip.sequence < size by omega, show 0 < size by decide⟩
  have hrd := readEnvelope_fits hbo []
  rw [append_nil] at hrd
  simp only [decodeFrame, bind_eq_ok, openFrame_frameBytes hwr,
    okOr_eq_ok, ensure_eq_ok, pure_eq_ok, Bool.and_eq_true, length_frameBytes, Prod.exists]
  constructor
  · rintro ⟨_, ⟨rfl, hle⟩, envelope, tail, hen, _, ⟨_, hcn⟩, _, _, hrs⟩
    rw [hrd] at hen
    cases hen
    have hfi := (continues_iff.mp hcn).1
    simp only [envelopeAfter, Envelope.mk.injEq] at hfi
    obtain ⟨_, hid, _, hsq, _, hhs, _⟩ := hfi
    have htp : otherTip = tip := by
      cases tip
      cases otherTip
      rw [LogTip.mk.injEq]
      exact ⟨hsq.symm, hhs.symm⟩
    cases hrs
    exact ⟨hle, hid.symm, htp, rfl, rfl⟩
  · rintro ⟨hle, rfl, rfl, rfl, rfl⟩
    refine ⟨_, ⟨rfl, hle⟩, _, _, hrd, (), ⟨rfl, ?_⟩, (), hv, rfl⟩
    rw [continues_iff]
    exact ⟨rfl, hsq⟩

omit [LawfulWire R] [LogRecord R] in
lemma length_envelopeAfter (other sequence) :
    (envelopeAfter identity tip sequence record).bytes.length =
      (envelopeAfter other tip sequence record).bytes.length := by
  simp only [envelopeAfter, Envelope.bytes, length_append, length_identityBytes]

omit [LawfulWire R] in
lemma Encoded.length_frame (hencoded : Encoded identity tip record limit frame next) :
    frame.length = (envelopeAfter identity tip (tip.sequence + 1)
      record).bytes.length + frameOverhead := by
  rw [hencoded.frame, length_frameBytes]

omit [LawfulWire R] in
lemma Encoded.frameSize (hencoded : Encoded identity tip record limit frame next) :
    frameSize tip record = .ok frame.length := by
  have h := hencoded.word
  rw [hencoded.length_frame]
  rw [length_envelopeAfter .blank] at h ⊢
  simp only [Store.frameSize, bind_eq_ok, okOr_eq_ok, checkedAdd_eq_some]
  refine ⟨_, ⟨hencoded.sequence, rfl⟩, ?_, rfl⟩
  rw [size, frameOverhead]
  omega

lemma Encoded.decode (hencoded : Encoded identity tip record limit frame next) :
    decodeFrame identity tip frame limit = .ok (record, next) := by
  rw [hencoded.decode_iff]
  refine ⟨?_, rfl, rfl, rfl, rfl⟩
  rw [hencoded.length_frame]
  exact hencoded.room

/-! ## Chains -/

/-- Frames that were encoded one after the other. -/
inductive Chain (identity : StoreIdentity) (limit : ℕ) :
    LogTip → List R → List (List UInt8) → LogTip → Prop where
  | nil (tip : LogTip) : Chain identity limit tip [] [] tip
  | cons {tip next last record frame records frames}
      (first : Encoded identity tip record limit frame next)
      (rest : Chain identity limit next records frames last) :
      Chain identity limit tip (record :: records) (frame :: frames) last

variable {records : List R} {frames : List (List UInt8)} {last : LogTip}

omit [LawfulWire R] in
lemma encodeFrames_ok
    (hencode : encodeFrames identity limits tip total records = .ok (frames, last, sum)) :
    Chain identity limits.recordMaxBytes tip records frames last := by
  induction records generalizing tip total frames with
  | nil =>
    cases hencode
    exact .nil _
  | cons record records ih =>
    simp only [encodeFrames, bind_eq_ok, okOr_eq_ok,
      filter_eq_some_iff, checkedAdd_eq_some, pure_eq_ok, Prod.exists] at hencode
    obtain ⟨frame, next, hfr, _, ⟨⟨_, rfl⟩, _⟩, rest, _, _, hr, hrs⟩ := hencode
    cases hrs
    exact .cons (encodeFrame_ok.mp hfr) (ih hr)

lemma Chain.decode (hchain : Chain identity limit tip records frames last) :
    decodeFrames identity limit tip frames = .ok (records, last) := by
  induction hchain with
  | nil => rfl
  | cons first _ ih =>
    simp only [decodeFrames, bind_eq_ok]
    exact ⟨_, first.decode, _, ih, rfl⟩

omit [LawfulWire R] in
lemma Chain.append (hchain : Chain identity limit tip records frames middle)
    (hmore : Chain identity limit middle more others last) :
    Chain identity limit tip (records ++ more) (frames ++ others) last := by
  induction hchain with
  | nil => exact hmore
  | cons first _ ih => exact .cons first (ih hmore)

omit [LawfulWire R] in
lemma Chain.cut (hchain : Chain identity limit tip records frames last) (count : ℕ) : ∃ middle,
      Chain identity limit tip (records.take count) (frames.take count) middle ∧
      Chain identity limit middle (records.drop count) (frames.drop count)
        last := by
  induction hchain generalizing count with
  | nil tip => exact ⟨tip, by simpa using .nil tip, by simpa using .nil tip⟩
  | @cons tip next last record frame records frames first rest ih =>
    cases count with
    | zero => exact ⟨tip, .nil tip, .cons first rest⟩
    | succ count =>
      obtain ⟨middle, hb, ha⟩ := ih count
      exact ⟨middle, .cons first hb, ha⟩

omit [LawfulWire R] in
lemma Chain.length_eq (hchain : Chain identity limit tip records frames last) :
    records.length = frames.length := by
  induction hchain with
  | nil => rfl
  | cons _ _ ih => rw [length_cons, length_cons, ih]

end Frames

end AgentDx.Store
