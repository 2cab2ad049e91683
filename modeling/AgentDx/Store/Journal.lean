import AgentDx.Lib.Bytes
import AgentDx.Store.Decision

/-!
# Frames of the operation log

A frame is a length, a checksum, an encoded envelope and the hash of that
envelope.  The envelope names the log, the position and the hash of the frame
before it, so that the frames of a log form a chain.  Integers and arrays of the
envelope are encoded as the serializer encodes them; how a record is encoded and
what the hash and the checksum compute is left open.
-/

namespace AgentDx.Store

open Dfs Bytes Word

/-! ## Identity and position -/

structure StoreIdentity where
  storeId : BitVec 128
  clusterId : BitVec 128
  incarnation : BitVec 128
  deriving DecidableEq

def StoreIdentity.blank : StoreIdentity := ⟨0, 0, 0⟩

structure LogLimits where
  recordMaxBytes : ℕ
  batchMaxBytes : ℕ
  walMaxBytes : ℕ
  deriving DecidableEq

def frameOverhead : ℕ := 40

def logVersion : ℕ := 2

/-! ## Records and their encoding -/

/-- What the log asks of a record. -/
class LogRecord (R : Type) where
  validate : R → Result Unit
  revisionBefore : R → ℕ
  revisionAfter : R → ℕ

/-- The serializer of records, the hash and the checksum. -/
class Wire (R : Type) where
  recordBytes : R → List UInt8
  readRecord : Reader R
  blake3 : List UInt8 → Digest
  crc32c : List UInt8 → UInt32
  crc32cAppend : UInt32 → List UInt8 → UInt32

/-- Records are read back as they were written. -/
class LawfulWire (R : Type) [Wire R] : Prop where
  roundTrip : ∀ record : R, Fits Wire.readRecord Wire.recordBytes record

def Record.revisionBefore : Record → ℕ
  | .decision decided _ => decided.revisionBefore
  | .history delta => delta.revision

def Record.revisionAfter : Record → ℕ
  | .decision decided _ => decided.revisionAfter
  | .history delta => delta.revision

instance [Codec] : LogRecord Record where
  validate := Record.validate
  revisionBefore := Record.revisionBefore
  revisionAfter := Record.revisionAfter

/-! ## Envelopes -/

structure Envelope (R : Type) where
  version : ℕ
  identity : StoreIdentity
  sequence : ℕ
  baseSequence : ℕ
  term : ℕ
  previousHash : Digest
  decision : R

section Frames

variable {R : Type} [LogRecord R] [Wire R]

def idBytes (id : BitVec 128) : List UInt8 := @arrayBytes 16 id

def readId : Reader (BitVec 128) := readArray 16

def digestBytes (digest : Digest) : List UInt8 := @arrayBytes 32 digest

def readDigest : Reader Digest := readArray 32

def identityBytes (identity : StoreIdentity) : List UInt8 :=
  idBytes identity.storeId ++ (idBytes identity.clusterId ++ idBytes identity.incarnation)

def readIdentity : Reader StoreIdentity := fun input => do
  let (storeId, input) ← readId input
  let (clusterId, input) ← readId input
  let (incarnation, input) ← readId input
  some (⟨storeId, clusterId, incarnation⟩, input)

/-- A 16-bit integer takes at most three bytes, a 64-bit one at most ten. -/
def Envelope.bytes (envelope : Envelope R) : List UInt8 :=
  varint 3 envelope.version ++ (identityBytes envelope.identity ++
    (varint 10 envelope.sequence ++ (varint 10 envelope.baseSequence ++
      (varint 10 envelope.term ++ (digestBytes envelope.previousHash ++
        Wire.recordBytes envelope.decision)))))

def readEnvelope : Reader (Envelope R) := fun input => do
  let (version, input) ← readVarint 3 3 input
  let (identity, input) ← readIdentity input
  let (sequence, input) ← readVarint 1 10 input
  let (baseSequence, input) ← readVarint 1 10 input
  let (term, input) ← readVarint 1 10 input
  let (previousHash, input) ← readDigest input
  let (decision, input) ← Wire.readRecord input
  some (⟨version, identity, sequence, baseSequence, term, previousHash, decision⟩, input)

/-- The envelope of the record that follows a position. -/
def envelopeAfter (identity : StoreIdentity) (tip : LogTip) (sequence : ℕ)
    (decision : R) : Envelope R where
  version := logVersion
  identity := identity
  sequence := sequence
  baseSequence := tip.sequence
  term := 0
  previousHash := tip.recordHash
  decision := decision

/-- The size of a frame, measured with a blank identity. -/
def frameSize (tip : LogTip) (decision : R) : Result ℕ := do
  let sequence ← okOr (checkedAdd tip.sequence 1) (invalidLog "sequence exhausted")
  let envelope := envelopeAfter .blank tip sequence decision
  okOr (checkedAdd envelope.bytes.length frameOverhead) (invalidLog "frame length overflow")

def encodeBounded (envelope : Envelope R) (limit : ℕ) : Result (List UInt8) :=
  if limit < envelope.bytes.length then
    .error (invalidContract "meta encoding exceeds byte limit")
  else
    .ok envelope.bytes

/-! ## Frames -/

def recordDomain : List UInt8 := "afs.meta.record.v2".toList.map fun char => UInt8.ofNat char.toNat

variable (R) in
def recordHash (payload : List UInt8) : Digest := Wire.blake3 R (recordDomain ++ payload)

variable (R) in
def frameCrc (length body : List UInt8) : ℕ :=
  (Wire.crc32cAppend R (Wire.crc32c R length) body).toNat

/-- Length, checksum, payload and hash. -/
def frameBytes (payload : List UInt8) : List UInt8 :=
  let length := bigEndian 4 (payload.length + 32)
  let body := payload ++ digestBytes (recordHash R payload)
  length ++ (bigEndian 4 (frameCrc R length body) ++ body)

def encodeFrame (identity : StoreIdentity) (tip : LogTip) (decision : R)
    (limit : ℕ) : Result (List UInt8 × LogTip) := do
  LogRecord.validate decision
  let sequence ← okOr (checkedAdd tip.sequence 1) (invalidLog "sequence exhausted")
  let bound ← okOr (checkedSub limit frameOverhead) (invalidLog "record limit too small")
  let payload ← encodeBounded (envelopeAfter identity tip sequence decision) bound
  ensure (decide (payload.length + 32 < 2 ^ 32)) (invalidLog "frame length overflow")
  return (frameBytes (R := R) payload, ⟨sequence, recordHash R payload⟩)

def frameLength (header : List UInt8) (limit : ℕ) : Result ℕ := do
  ensure (decide (4 ≤ header.length)) (invalidLog "incomplete frame length")
  let length ← okOr (checkedAdd (fromBigEndian (header.take 4)) 8)
    (invalidLog "frame length overflow")
  ensure (decide (frameOverhead ≤ length ∧ length ≤ limit))
    (invalidLog "frame length outside record bound")
  return length

/-- Checks length, checksum and hash; what remains is the payload. -/
def openFrame (frame : List UInt8) (limit : ℕ) : Result (List UInt8) := do
  let length ← frameLength frame limit
  ensure (decide (frame.length = length)) (invalidLog "incomplete/trailing frame")
  ensure (decide (fromBigEndian ((frame.drop 4).take 4) = frameCrc R (frame.take 4) (frame.drop 8)))
    (invalidLog "frame CRC mismatch")
  let bodyEnd := frame.length - 32
  let payload := (frame.take bodyEnd).drop 8
  ensure (decide (frame.drop bodyEnd = digestBytes (recordHash R payload)))
    (invalidLog "record hash mismatch")
  return payload

/-- The envelope continues the log at this position. -/
def Envelope.continues (envelope : Envelope R) (identity : StoreIdentity) (tip : LogTip) : Bool :=
  envelope.version = logVersion && envelope.identity = identity &&
    envelope.term = 0 && envelope.baseSequence = tip.sequence &&
    checkedAdd tip.sequence 1 = some envelope.sequence && envelope.previousHash = tip.recordHash

def decodeFrame (identity : StoreIdentity) (tip : LogTip)
    (frame : List UInt8) (limit : ℕ) : Result (R × LogTip) := do
  let payload ← openFrame (R := R) frame limit
  let (envelope, tail) ← okOr (readEnvelope (R := R) payload) (invalidLog "decode envelope")
  ensure (tail.isEmpty && envelope.continues identity tip)
    (invalidLog "record format/identity/sequence/base/hash-chain mismatch")
  LogRecord.validate envelope.decision
  return (envelope.decision, ⟨envelope.sequence, recordHash R payload⟩)

/-! ## Batches -/

/-- Encodes records one after the other, with the bytes used so far. -/
def encodeFrames (identity : StoreIdentity) (limits : LogLimits) :
    LogTip → ℕ → List R → Result (List (List UInt8) × LogTip × ℕ)
  | tip, total, [] => .ok ([], tip, total)
  | tip, total, record :: records => do
      let (frame, next) ← encodeFrame identity tip record limits.recordMaxBytes
      let total ← okOr ((checkedAdd total frame.length).filter
        (· ≤ limits.batchMaxBytes)) (full "batch byte budget exhausted")
      let (frames, tip, total) ← encodeFrames identity limits next total records
      return (frame :: frames, tip, total)

def encodeBatch (identity : StoreIdentity) (tip : LogTip) (records : List R)
    (limits : LogLimits) : Result (List (List UInt8) × LogTip × ℕ) := do
  ensure (!records.isEmpty && records.length ≤ 64) (invalidLog "batch record count outside 1..64")
  encodeFrames identity limits tip 0 records

/-- Decodes frames one after the other. -/
def decodeFrames (identity : StoreIdentity) (limit : ℕ) :
    LogTip → List (List UInt8) → Result (List R × LogTip)
  | tip, [] => .ok ([], tip)
  | tip, frame :: frames => do
      let (record, next) ← decodeFrame identity tip frame limit
      let (records, tip) ← decodeFrames identity limit next frames
      return (record :: records, tip)

end Frames

end AgentDx.Store
