import AgentDx.Error
import AgentDx.Lib.Bytes
import AgentDx.Store.Key

/-!
# The encoding of metadata keys

An encoded key is a tag followed by the key's components, each behind its length
in four bytes.  A component may hold any bytes: a reader never looks for an end
mark, so the encoding can be read back in one way only, and the keys of one
directory are those behind the directory's prefix.
-/

namespace AgentDx.Store

open Dfs Bytes Result List

/-! ## Encoding -/

def asBytes (text : String) : Bytes := text.toUTF8.data.toList

/-- A tag and the text components behind it. -/
def texts (tag : UInt8) (values : List String) : UInt8 × List Bytes := (tag, values.map asBytes)

/-- The tag of a key and its components in order. -/
def MetaKey.parts : MetaKey → UInt8 × List Bytes
  | .nodeSession nodeId sessionId => texts 0x01 [nodeId, sessionId]
  | .currentNodeSession nodeId => texts 0x02 [nodeId]
  | .currentNodeSessions => texts 0x03 []
  | .rootEpochWatermark => texts 0x15 []
  | .root rootId => texts 0x10 [rootId]
  | .rootReservation rootId => texts 0x11 [rootId]
  | .rootGrant rootId nodeId sessionId => texts 0x12 [rootId, nodeId, sessionId]
  | .rootCommand commandId => texts 0x13 [commandId]
  | .rootCommandAck commandId nodeId sessionId => texts 0x14 [commandId, nodeId, sessionId]
  | .dfsDentry key => (0x20, [asBytes key.namespaceId, asBytes key.parentInodeId, key.name])
  | .dfsInode id => texts 0x21 [id]
  | .dfsFileVersion id => texts 0x22 [id]
  | .dfsLayoutRoot id => texts 0x23 [id]
  | .dfsChunk id => texts 0x24 [id]
  | .dfsPlacement id => texts 0x27 [id]
  | .dfsCopy id => texts 0x28 [id]
  | .dfsReplicationTask id => texts 0x29 [id]
  | .dfsWriteLease id => texts 0x2a [id]
  | .dfsReference nodeId sessionId referenceId => texts 0x2b [nodeId, sessionId, referenceId]
  | .dfsGc => texts 0x2c []
  | .dfsReplicationConfig => texts 0x25 []
  | .dfsDurabilityPolicy => texts 0x26 []
  | .requestOutcome key => texts 0x30 [key.callerId, key.requestId]

def appendField (out field : Bytes) : Result Bytes := do
  ensure (decide (field.length < 2 ^ 32)) (invalidContract "meta key component exceeds u32")
  return out ++ bigEndian 4 field.length ++ field

def encode (key : MetaKey) : Result Bytes := key.parts.2.foldlM appendField [key.parts.1]

def directoryPrefix (space : NamespaceId) (parent : InodeId) : Result Bytes := do
  appendField (← appendField [0x20] (asBytes space)) (asBytes parent)

def rootGrantsPrefix (rootId : String) : Result Bytes := appendField [0x12] (asBytes rootId)

/-! ## Decoding -/

/-- Reads a value off the front of its input. -/
abbrev KeyReader := StateT Bytes Result

def field : KeyReader Bytes := fun input => do
  ensure (decide (4 ≤ input.length)) (invalidContract "truncated meta key length")
  let length := fromBigEndian (input.take 4)
  let rest := input.drop 4
  ensure (decide (length ≤ rest.length)) (invalidContract "truncated meta key field")
  return (rest.take length, rest.drop length)

def text : KeyReader String := fun input => do
  let (bytes, rest) ← field input
  let text ← okOr (String.fromUTF8? ⟨bytes.toArray⟩) (invalidContract "non UTF-8 meta identifier")
  return (text, rest)

def decodeBody : UInt8 → KeyReader MetaKey
  | 0x01 => return .nodeSession (← text) (← text)
  | 0x02 => return .currentNodeSession (← text)
  | 0x03 => return .currentNodeSessions
  | 0x15 => return .rootEpochWatermark
  | 0x10 => return .root (← text)
  | 0x11 => return .rootReservation (← text)
  | 0x12 => return .rootGrant (← text) (← text) (← text)
  | 0x13 => return .rootCommand (← text)
  | 0x14 => return .rootCommandAck (← text) (← text) (← text)
  | 0x20 => return .dfsDentry ⟨← text, ← text, ← field⟩
  | 0x21 => return .dfsInode (← text)
  | 0x22 => return .dfsFileVersion (← text)
  | 0x23 => return .dfsLayoutRoot (← text)
  | 0x24 => return .dfsChunk (← text)
  | 0x27 => return .dfsPlacement (← text)
  | 0x28 => return .dfsCopy (← text)
  | 0x29 => return .dfsReplicationTask (← text)
  | 0x2a => return .dfsWriteLease (← text)
  | 0x2b => return .dfsReference (← text) (← text) (← text)
  | 0x2c => return .dfsGc
  | 0x25 => return .dfsReplicationConfig
  | 0x26 => return .dfsDurabilityPolicy
  | 0x30 => return .requestOutcome ⟨← text, ← text⟩
  | _ => throw (invalidContract "unknown meta key tag")

def decode : Bytes → Result MetaKey
  | [] => .error (invalidContract "empty meta key")
  | tag :: tail => do
    let (key, tail) ← decodeBody tag tail
    ensure tail.isEmpty (invalidContract "trailing meta key bytes")
    return key

/-! ## Fields -/

/-- A component behind its length. -/
def frame (field : Bytes) : Bytes := bigEndian 4 field.length ++ field

/-- Components whose lengths can be written. -/
def Fit (fields : List Bytes) : Prop := ∀ field ∈ fields, field.length < 2 ^ 32

variable {fields : List Bytes} {out bytes input rest value : Bytes} {key : MetaKey} {tag : UInt8}

@[simp]
lemma fit_cons : Fit (value :: fields) ↔ value.length < 2 ^ 32 ∧ Fit fields := forall_mem_cons

@[simp]
lemma fit_nil : Fit [] := by simp [Fit]

lemma foldlM_appendField : fields.foldlM appendField out = .ok bytes ↔
    Fit fields ∧ out ++ fields.flatMap frame = bytes := by
  induction fields generalizing out with
  | nil => simp
  | cons field fields ih => simp [bind_eq_ok, ih, appendField, frame, and_assoc]

lemma fromBigEndian_four (hlen : bytes.length = 4) :
    fromBigEndian bytes < 2 ^ 32 ∧ bigEndian 4 (fromBigEndian bytes) = bytes := by
  obtain ⟨a, b, c, d, rfl⟩ := length_eq_four.mp hlen
  have ha := a.toNat_lt
  have hb := b.toNat_lt
  have hc := c.toNat_lt
  have hd := d.toNat_lt
  simp [fromBigEndian, bigEndian, ← UInt8.toNat_inj]
  omega

lemma field_eq_ok : field input = .ok (value, rest) ↔
    value.length < 2 ^ 32 ∧ frame value ++ rest = input := by
  simp only [field, bind_eq_ok, ensure_eq_ok, decide_eq_true_eq, exists_const, pure_eq_ok,
    Prod.mk.injEq]
  constructor
  · rintro ⟨hheader, hbody, rfl, rfl⟩
    have hlen : (input.take 4).length = 4 := by simp [hheader]
    obtain ⟨hbound, hword⟩ := fromBigEndian_four hlen
    rw [frame, length_take, Nat.min_eq_left hbody, hword]
    exact ⟨hbound, by simp⟩
  · rintro ⟨hbound, rfl⟩
    have hread := fromBigEndian_bigEndian (show value.length < 256 ^ 4 by omega)
    have hlen : (bigEndian 4 value.length).length = 4 := length_bigEndian _ _
    rw [frame, append_assoc, take_left' hlen, drop_left' hlen, hread]
    simp

lemma fromUTF8?_eq_some {text} :
    String.fromUTF8? ⟨bytes.toArray⟩ = some text ↔ asBytes text = bytes := by
  rw [String.fromUTF8?]
  constructor
  · intro htext
    split at htext
    · cases htext
      rfl
    · cases htext
  · rintro rfl
    exact dif_pos text.isValidUTF8

lemma text_eq_ok {value} : text input = .ok (value, rest) ↔
    (asBytes value).length < 2 ^ 32 ∧ frame (asBytes value) ++ rest = input := by
  simp only [← field_eq_ok, text, bind_eq_ok, Prod.exists, okOr_eq_ok, fromUTF8?_eq_some,
    pure_eq_ok, Prod.mk.injEq]
  constructor
  · rintro ⟨_, _, hfield, _, rfl, rfl, rfl⟩
    exact hfield
  · intro hfield
    exact ⟨_, _, hfield, _, rfl, rfl, rfl⟩

@[simp]
lemma reader_bind {A B : Type} {first : KeyReader A} {next} {value : B} :
    (first >>= next) input = .ok (value, rest) ↔
      ∃ middle left, first input = .ok (middle, left) ∧ next middle left = .ok (value, rest) := by
  change (first input >>= fun found => next found.1 found.2) = _ ↔ _
  simp [bind_eq_ok]

@[simp]
lemma reader_pure {A : Type} {result value} :
    (pure result : KeyReader A) input = .ok (value, rest) ↔ result = value ∧ input = rest := by
  change (pure (result, input) : Result _) = _ ↔ _
  simp

lemma field_frame (hval : value.length < 2 ^ 32) :
    field (frame value ++ rest) = .ok (value, rest) :=
  field_eq_ok.mpr ⟨hval, rfl⟩

lemma text_frame {value} (hval : (asBytes value).length < 2 ^ 32) :
    text (frame (asBytes value) ++ rest) = .ok (value, rest) :=
  text_eq_ok.mpr ⟨hval, rfl⟩

lemma decodeBody_eq_ok : decodeBody tag input = .ok (key, rest) ↔
    key.parts.1 = tag ∧ Fit key.parts.2 ∧ key.parts.2.flatMap frame ++ rest = input := by
  constructor
  · intro hdecode
    unfold decodeBody at hdecode
    split at hdecode
    case h_24 => cases hdecode
    all_goals
      simp only [reader_bind, reader_pure, text_eq_ok, field_eq_ok] at hdecode
      casesm* ∃ _, _, _ ∧ _
      subst_vars
      simp_all [MetaKey.parts, texts]
  · rintro ⟨rfl, hfits, rfl⟩
    cases key
    all_goals simp_all [-bind_pure_comp, decodeBody, MetaKey.parts, texts, text_frame, field_frame]

lemma decode_eq_ok : decode bytes = .ok key ↔ encode key = .ok bytes := by
  rw [encode, foldlM_appendField]
  cases bytes with
  | nil => simp [decode]
  | cons tag tail =>
    simp only [decode, bind_eq_ok, Prod.exists, decodeBody_eq_ok, ensure_eq_ok, exists_const,
      pure_eq_ok, List.isEmpty_iff, List.cons_append, List.nil_append, List.cons.injEq]
    constructor
    · rintro ⟨_, _, ⟨htag, hfits, hbytes⟩, rfl, rfl⟩
      exact ⟨hfits, htag, by simpa using hbytes⟩
    · rintro ⟨hfits, htag, hbytes⟩
      exact ⟨key, [], ⟨htag, hfits, by simpa using hbytes⟩, rfl, rfl⟩

/-! ## Scans -/

/-- Framed components start with framed components only when the components
themselves do. -/
lemma flatMap_frame_starts {own} (hcols : Fit fields) (hown : Fit own) :
    fields.flatMap frame <+: own.flatMap frame ↔ fields <+: own := by
  constructor
  · induction fields generalizing own with
    | nil => simp
    | cons field fields ih =>
      rintro ⟨rest, hrest⟩
      cases own with
      | nil =>
        have hlen := congrArg List.length hrest
        simp [frame] at hlen
      | cons first own =>
        rw [fit_cons] at hcols hown
        rw [flatMap_cons, flatMap_cons, append_assoc] at hrest
        have hread := field_eq_ok.mpr ⟨hown.1, hrest.symm⟩
        rw [field_frame hcols.1] at hread
        injection hread with hread
        injection hread with hone hrest
        exact cons_prefix_cons.mpr ⟨hone, ih hcols.2 hown.2 ⟨rest, hrest⟩⟩
  · rintro ⟨rest, rfl⟩
    simp

lemma exists_scan (tag fields) (hcols : Fit fields) :
    ∃ scan, fields.foldlM appendField [tag] = .ok scan ∧ ∀ key bytes, encode key = .ok bytes →
      (scan <+: bytes ↔ tag = key.parts.1 ∧ fields <+: key.parts.2) := by
  refine ⟨_, foldlM_appendField.mpr ⟨hcols, rfl⟩, fun key bytes hkey => ?_⟩
  obtain ⟨hown, rfl⟩ := foldlM_appendField.mp hkey
  simp [flatMap_frame_starts hcols hown]

@[simp]
lemma asBytes_inj {left right} : asBytes left = asBytes right ↔ left = right := by
  simp [asBytes, Array.toList_inj, ← ByteArray.ext_iff, String.toByteArray_inj]

/-- Keys have one encoding, every accepted byte string is one, and a prefix scan
finds one directory, or the grants of one root. -/
theorem key_encoding_canonical :
    (∀ key : MetaKey, Fit key.parts.2 → ∃ bytes, encode key = .ok bytes ∧ decode bytes = .ok key) ∧
    (∀ left right bytes, encode left = .ok bytes → encode right = .ok bytes → left = right) ∧
    (∀ bytes key, decode bytes = .ok key → encode key = .ok bytes) ∧
    (∀ space parent, Fit [asBytes space, asBytes parent] →
      ∃ scan, directoryPrefix space parent = .ok scan ∧ ∀ key bytes, encode key = .ok bytes →
        (scan <+: bytes ↔ ∃ name, key = .dfsDentry ⟨space, parent, name⟩)) ∧
    ∀ rootId, Fit [asBytes rootId] →
      ∃ scan, rootGrantsPrefix rootId = .ok scan ∧ ∀ key bytes, encode key = .ok bytes →
        (scan <+: bytes ↔ ∃ node session, key = .rootGrant rootId node session) := by
  refine ⟨fun key hfits => ?_, fun left right bytes hleft hright => ?_,
    fun bytes key => decode_eq_ok.mp, fun space parent hfits => ?_, fun rootId hfits => ?_⟩
  · have hencode : encode key = _ := foldlM_appendField.mpr ⟨hfits, rfl⟩
    exact ⟨_, hencode, decode_eq_ok.mpr hencode⟩
  · rw [← decode_eq_ok] at hleft hright
    exact Except.ok.inj (hleft.symm.trans hright)
  · obtain ⟨scan, hscan, hget⟩ := exists_scan 0x20 _ hfits
    refine ⟨scan, by simpa [directoryPrefix] using hscan, fun key bytes hkey => ?_⟩
    rw [hget key bytes hkey]
    cases key with
    | dfsDentry key =>
      cases key
      simp [MetaKey.parts, eq_comm]
    | _ => simp [MetaKey.parts, texts]
  · obtain ⟨scan, hscan, hget⟩ := exists_scan 0x12 _ hfits
    refine ⟨scan, by simpa [rootGrantsPrefix] using hscan, fun key bytes hkey => ?_⟩
    rw [hget key bytes hkey]
    cases key <;> simp [MetaKey.parts, texts, eq_comm]

/-- A component of four gigabytes has no encoding. -/
theorem oversized_name_refused : encode (.dfsDentry ⟨"", "", List.replicate (2 ^ 32) 0⟩) =
      .error (invalidContract "meta key component exceeds u32") := by
  have hnil : asBytes "" = [] := rfl
  simp only [encode, MetaKey.parts, foldlM_cons, hnil, appendField, ensure, length_replicate]
  rfl

end AgentDx.Store
