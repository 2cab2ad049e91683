import AgentDx.Lib.Split
import AgentDx.Error
import AgentDx.Dfs.Chunk

/-!
# Canonical chunk names

A chunk is named by its digest and length, and its object by the store, the
generation and that name.  Both names can be read back.
-/

namespace AgentDx.Dfs

open List

/-! ## Object keys -/

/-- The name of a chunk by its content. -/
def contentAddressedId (digest : Digest) (length : ℕ) : ChunkId :=
  "blake3-" ++ String.ofList (hexDigits digest) ++ "-" ++ toString length

def safeSegment (value : String) : Bool :=
  value ≠ "" && value ≠ "." && value ≠ ".." &&
    value.toList.all fun char => char.isAlphanum || ['-', '_', '.'].contains char

def validateExternalStoreIdentity (storeId generation : String) : Result Unit :=
  ensure (safeSegment storeId && safeSegment generation)
    ⟨.clientArgumentInvalid, "invalid external store identity"⟩

def externalObjectKey (storeId generation : String) (chunkId : ChunkId) : Result String := do
  validateExternalStoreIdentity storeId generation
  let (digest, _) ← okOr (contentAddressedParts chunkId)
    ⟨.clientArgumentInvalid, "invalid external chunk identity"⟩
  return "afs/v1/" ++ storeId ++ "/" ++ generation ++ "/chunks/" ++
    String.ofList (digest.toList.take 2) ++ "/" ++ chunkId

/-! ## Text -/

lemma stripLeading_eq_some {lead text rest : String} :
    stripLeading lead text = some rest ↔ text = lead ++ rest := by
  unfold stripLeading
  split
  next hld =>
    obtain ⟨more, hmr⟩ := hld
    simp only [← String.toList_inj, Option.some.injEq, ← hmr, String.toList_append]
    simp [← String.length_toList]
  next hld =>
    simp only [reduceCtorEq, false_iff]
    rintro rfl
    simp at hld

lemma splitOnce_eq_some {mark : Char} {text before after : String} :
    splitOnce mark text = some (before, after) ↔
      mark ∉ before.toList ∧ text.toList = before.toList ++ mark :: after.toList := by
  simp only [splitOnce, span_eq_takeWhile_dropWhile]
  constructor
  · intro hsp
    have hpr := takeWhile_append_dropWhile (p := fun char => decide (char ≠ mark)) (l :=
      text.toList)
    have hhd := head?_dropWhile_not (fun char => decide (char ≠ mark)) text.toList
    split at hsp
    next => cases hsp
    next first rest hdr =>
      cases hsp
      rw [hdr] at hpr hhd
      have hmr : first = mark := by simpa using hhd
      subst hmr
      refine ⟨fun hm => ?_, by simpa using hpr.symm⟩
      have hot := mem_takeWhile_imp (by simpa using hm)
      simp at hot
  · rintro ⟨hbf, htx⟩
    have hal : ∀ char ∈ before.toList, decide (char ≠ mark) = true := by
      intro char hch
      simpa using ne_of_mem_of_not_mem hch hbf
    rw [htx, takeWhile_append_of_pos hal, dropWhile_append_of_pos hal]
    simp

lemma parseWord_toString {value : ℕ} (hword : value < 2 ^ 64) :
    parseWord (toString value) = some value := by
  have hdg : ∀ char ∈ (toString value).toList, char.isDigit = true := by
    intro char hch
    rw [Nat.toString_eq_ofList_toDigits, String.toList_ofList] at hch
    exact Nat.isDigit_of_mem_toDigits (by decide) (by decide) hch
  have hpl : stripLeading "+" (toString value) = none := by
    rw [Option.eq_none_iff_forall_ne_some]
    intro rest hr
    rw [stripLeading_eq_some.mp hr] at hdg
    exact absurd (hdg '+' (by simp)) (by decide)
  have hvl := Nat.ofDigitChars_ten_toDigits (n := value)
  rw [Nat.ofDigitChars_eq_foldl] at hvl
  simp_all [parseWord]

lemma parseWord_lt {text : String} {value : ℕ} (hparse : parseWord text = some value) :
    value < 2 ^ 64 := by
  simp only [parseWord] at hparse
  split at hparse
  · split at hparse
    · cases hparse
      assumption
    · cases hparse
  · cases hparse

/-! ## Hexadecimal digits -/

def isHexDigit (char : Char) : Bool := char.isDigit || (decide ('a' ≤ char) && decide (char ≤ 'f'))

lemma hexDigit_facts {char : Char} (hchar : isHexDigit char = true) :
    hexValue char < 16 ∧ Nat.digitChar (hexValue char) = char ∧ char ≠ '-' ∧ char ≠ '/' := by
  have hrn : 48 ≤ char.toNat ∧ char.toNat ≤ 57 ∨ 97 ≤ char.toNat ∧ char.toNat ≤ 102 := by
    simpa [isHexDigit, Char.isDigit, Char.le_def, UInt32.le_iff_toNat_le] using hchar
  rw [← Char.ofNat_toNat char]
  generalize char.toNat = code at hrn
  have hcd : code ≤ 102 := by omega
  rcases hrn with ⟨hlw, hhg⟩ | ⟨hlw, hhg⟩ <;> interval_cases code <;> decide

lemma digitChar_facts (value : ℕ) : hexValue (Nat.digitChar (value % 16)) = value % 16 ∧
    isHexDigit (Nat.digitChar (value % 16)) = true := by
  have hlt : value % 16 < 16 := Nat.mod_lt _ (by decide)
  generalize value % 16 = digit at hlt
  interval_cases digit <;> decide

/-- The value of hexadecimal text, as it is read. -/
def hexNumber (text : List Char) : ℕ := text.foldl (fun value char => 16 * value + hexValue char) 0

/-- The last digits of a number. -/
def hexText (count value : ℕ) : List Char :=
  (range count).map fun place => Nat.digitChar (value / 16 ^ (count - 1 - place) % 16)

lemma hexText_succ (count value : ℕ) :
    hexText (count + 1) value = hexText count (value / 16) ++ [Nat.digitChar (value % 16)] := by
  simp only [hexText, range_succ, map_append, map_cons, map_nil]
  congr 1
  · refine map_congr_left fun place hpl => ?_
    rw [mem_range] at hpl
    have hep : count + 1 - 1 - place = count - 1 - place + 1 := by omega
    rw [hep, Nat.div_div_eq_div_mul, pow_succ']
  · simp

lemma hexNumber_hexText (count value : ℕ) : hexNumber (hexText count value) =
    value % 16 ^ count := by
  induction count generalizing value with
  | zero => simp [hexNumber, hexText, Nat.mod_one]
  | succ count ih =>
    have hvl := ih (value / 16)
    rw [hexNumber] at hvl
    rw [hexText_succ, hexNumber, foldl_append, hvl, foldl_cons, foldl_nil,
      (digitChar_facts value).1, pow_succ', Nat.mod_mul, add_comm]

lemma hexText_hexNumber {text : List Char} (htext : text.all isHexDigit) :
    hexText text.length (hexNumber text) = text := by
  induction text using reverseRecOn with
  | nil => rfl
  | append_singleton text char ih =>
    rw [all_append, all_cons, all_nil, Bool.and_true, Bool.and_eq_true] at htext
    obtain ⟨hlt, hch, -⟩ := hexDigit_facts htext.2
    have hvl : hexNumber (text ++ [char]) = 16 * hexNumber text + hexValue char := by
      simp [hexNumber, foldl_append]
    rw [hvl, length_append, length_singleton, hexText_succ, Nat.mul_add_div (by decide),
      Nat.div_eq_of_lt hlt, add_zero, ih htext.1, Nat.mul_add_mod, Nat.mod_eq_of_lt hlt, hch]

lemma hexDigits_injective {digest other : Digest} (heq : hexDigits digest = hexDigits other) :
    digest = other := by
  have hvl (word : Digest) : hexNumber (hexDigits word) = word.toNat := by
    change hexNumber (hexText 64 word.toNat) = _
    rw [hexNumber_hexText]
    exact Nat.mod_eq_of_lt word.isLt
  exact BitVec.eq_of_toNat_eq (by rw [← hvl, heq, hvl])

lemma isHexDigit_hexDigits (digest : Digest) : (hexDigits digest).all isHexDigit := by
  rw [hexDigits, all_map, all_eq_true]
  intro place _
  exact (digitChar_facts _).2

lemma not_mem_of_isHexDigit {text : List Char} (htext : text.all isHexDigit) :
    '-' ∉ text ∧ '/' ∉ text := by
  rw [all_eq_true] at htext
  exact ⟨fun hm => (hexDigit_facts (htext _ hm)).2.2.1 rfl,
    fun hm => (hexDigit_facts (htext _ hm)).2.2.2 rfl⟩

/-! ## Canonical names -/

variable {hex : String} {length : ℕ} {chunkId : ChunkId}

lemma isLowerHex_iff : isLowerHex length hex = true ↔
    hex.toList.length = length ∧ hex.toList.all isHexDigit := by
  rw [String.length_toList]
  simp [isLowerHex, isHexDigit]

lemma hexDigits_ofNat (hhex : isLowerHex 64 hex = true) :
    hexDigits (BitVec.ofNat 256 (hexNumber hex.toList)) = hex.toList := by
  obtain ⟨hln, hdg⟩ := isLowerHex_iff.mp hhex
  have hbc := hexText_hexNumber hdg
  have hsm := hexNumber_hexText 64 (hexNumber hex.toList)
  rw [hln] at hbc
  rw [hbc] at hsm
  change hexText 64 (BitVec.ofNat 256 (hexNumber hex.toList)).toNat = _
  rw [BitVec.toNat_ofNat]
  exact (congrArg (hexText 64) hsm.symm).trans hbc

lemma contentAddressedParts_eq_some :
    contentAddressedParts chunkId = some (hex, length) ↔ isLowerHex 64 hex = true ∧
      length < 2 ^ 64 ∧ chunkId = "blake3-" ++ hex ++ "-" ++ toString length := by
  simp only [contentAddressedParts, Option.bind_eq_bind, Option.bind_eq_some_iff,
    stripLeading_eq_some, Prod.exists, splitOnce_eq_some]
  constructor
  · rintro ⟨content, rfl, digest, text, ⟨-, hcn⟩, parsed, hpr, hch⟩
    split at hch
    next hvl =>
      cases hch
      rw [Bool.and_eq_true, decide_eq_true_eq] at hvl
      refine ⟨hvl.1, parseWord_lt hpr, ?_⟩
      rw [← String.toList_inj, hvl.2]
      simp [hcn]
    next => cases hch
  · rintro ⟨hhx, hwr, rfl⟩
    have hmr := (not_mem_of_isHexDigit (isLowerHex_iff.mp hhx).2).1
    refine ⟨hex ++ "-" ++ toString length, by simp [String.append_assoc], hex, toString length,
      ⟨hmr, by simp⟩, length, parseWord_toString hwr, ?_⟩
    simp [hhx]

lemma externalObjectKey_eq_ok {storeId generation key : String}
    (hkey : externalObjectKey storeId generation chunkId = .ok key) :
    '/' ∉ storeId.toList ∧ '/' ∉ generation.toList ∧ ∃ folder : List Char, '/' ∉ folder ∧
      key.toList = "afs/v1/".toList ++ (storeId.toList ++ '/' :: (generation.toList ++
        '/' :: ("chunks/".toList ++ (folder ++ '/' :: chunkId.toList)))) := by
  have hsf {segment : String} (hsg : safeSegment segment = true) : '/' ∉ segment.toList := by
    intro hm
    simp only [safeSegment, Bool.and_eq_true, all_eq_true] at hsg
    exact absurd (hsg.2 _ hm) (by decide)
  obtain ⟨_, hid, hkey⟩ := Result.bind_eq_ok.mp hkey
  obtain ⟨⟨digest, length⟩, hpr, hkey⟩ := Result.bind_eq_ok.mp hkey
  cases hkey
  rw [validateExternalStoreIdentity, ensure_eq_ok, Bool.and_eq_true] at hid
  rw [okOr_eq_ok, contentAddressedParts_eq_some] at hpr
  refine ⟨hsf hid.1, hsf hid.2, digest.toList.take 2, fun hm => ?_, by simp⟩
  exact (not_mem_of_isHexDigit (isLowerHex_iff.mp hpr.1).2).2 (mem_of_mem_take hm)

lemma fromContentAddressedId_isSome : (ChunkObject.fromContentAddressedId chunkId).isSome ↔
    (contentAddressedParts chunkId).isSome := by
  cases hparts : contentAddressedParts chunkId <;>
    simp [ChunkObject.fromContentAddressedId, hparts]

/-- A key is made for every valid store and every canonical chunk id. -/
lemma externalObjectKey_isOk {storeId generation : String} :
    (∃ key, externalObjectKey storeId generation chunkId = .ok key) ↔
      validateExternalStoreIdentity storeId generation = .ok () ∧
        (ChunkObject.fromContentAddressedId chunkId).isSome := by
  rw [fromContentAddressedId_isSome, Option.isSome_iff_exists]
  constructor
  · rintro ⟨key, hkey⟩
    obtain ⟨_, hok, hkey⟩ := Result.bind_eq_ok.mp hkey
    obtain ⟨parts, hparts, -⟩ := Result.bind_eq_ok.mp hkey
    exact ⟨hok, parts, okOr_eq_ok.mp hparts⟩
  · rintro ⟨hok, parts, hparts⟩
    exact ⟨_, Result.bind_eq_ok.mpr ⟨_, hok,
      Result.bind_eq_ok.mpr ⟨parts, okOr_eq_ok.mpr hparts, rfl⟩⟩⟩

/-- A chunk is named by its content in one way only.  A canonical name has a key in
every store, and the key tells the store, the generation and the chunk. -/
theorem chunk_ids_canonical :
    (∀ chunkId, (ChunkObject.fromContentAddressedId chunkId).isSome ↔ ∃ hex length,
      isLowerHex 64 hex = true ∧ length < 2 ^ 64 ∧
        chunkId = "blake3-" ++ hex ++ "-" ++ toString length) ∧
    (∀ chunkId chunk, ChunkObject.fromContentAddressedId chunkId = some chunk →
      contentAddressedId chunk.contentDigest.bytes chunk.length = chunkId) ∧
    (∀ digest length other count, contentAddressedId digest length =
      contentAddressedId other count →
      digest = other ∧ length = count) ∧ (∀ storeId generation chunkId,
      (∃ key, externalObjectKey storeId generation chunkId = .ok key) ↔
        validateExternalStoreIdentity storeId generation = .ok () ∧
          (ChunkObject.fromContentAddressedId chunkId).isSome) ∧
    ∀ storeId generation chunkId store birth chunk key,
      externalObjectKey storeId generation chunkId = .ok key →
      externalObjectKey store birth chunk = .ok key →
      storeId = store ∧ generation = birth ∧ chunkId = chunk := by
  refine ⟨fun chunkId => ?_, fun chunkId chunk hch => ?_, ?_,
    fun _ _ _ => externalObjectKey_isOk, ?_⟩
  · rw [Option.isSome_iff_exists]
    constructor
    · rintro ⟨chunk, hch⟩
      obtain ⟨⟨hex, length⟩, hpr, -⟩ := Option.bind_eq_some_iff.mp hch
      exact ⟨hex, length, contentAddressedParts_eq_some.mp hpr⟩
    · rintro ⟨hex, length, hcn⟩
      exact ⟨_, Option.bind_eq_some_iff.mpr ⟨_, contentAddressedParts_eq_some.mpr hcn, rfl⟩⟩
  · obtain ⟨⟨hex, length⟩, hpr, hch⟩ := Option.bind_eq_some_iff.mp hch
    cases hch
    obtain ⟨hhx, -, rfl⟩ := contentAddressedParts_eq_some.mp hpr
    have hdg := hexDigits_ofNat hhx
    rw [hexNumber] at hdg
    simp only [contentAddressedId, hdg, String.ofList_toList]
  · intro digest length other count heq
    have htx := congrArg String.toList heq
    simp only [contentAddressedId, String.toList_append, String.toList_ofList, append_assoc,
      append_cancel_left_eq] at htx
    obtain ⟨hhx, hln⟩ := (Split.append_first_inj
      (not_mem_of_isHexDigit (isHexDigit_hexDigits digest)).1
      (not_mem_of_isHexDigit (isHexDigit_hexDigits other)).1).mp htx
    exact ⟨hexDigits_injective hhx, Nat.repr_inj.mp (String.toList_inj.mp hln)⟩
  · intro storeId generation chunkId store birth chunk key hky hot
    obtain ⟨hst, hgn, folder, hfl, htx⟩ := externalObjectKey_eq_ok hky
    obtain ⟨hst', hbr, group, hgr, heq⟩ := externalObjectKey_eq_ok hot
    rw [htx, append_cancel_left_eq, Split.append_first_inj hst hst',
      Split.append_first_inj hgn hbr, append_cancel_left_eq, Split.append_first_inj hfl hgr] at heq
    exact ⟨String.toList_inj.mp heq.1, String.toList_inj.mp heq.2.1, String.toList_inj.mp heq.2.2.2⟩

end AgentDx.Dfs
