import AgentDx.Dfs.Types

/-!
# Identities derived from digests

Object names carry meaning: a chunk is named by its content or by the write
generation that produced it, and both are read back from the name.  The hash
function is a parameter and nothing is assumed about it.
-/

namespace AgentDx.Dfs

/-- The cryptographic hash used for names. -/
class Hash where
  blake3 : Bytes → Digest

/-- A hash for concrete runs. -/
abbrev plainHash : Hash := ⟨fun _ => 0⟩

/-! ## Text -/

def utf8 (text : String) : Bytes := text.toUTF8.toList

/-- `str::strip_prefix`. -/
def stripLeading (lead text : String) : Option String :=
  if lead.toList <+: text.toList then
    some (String.ofList (text.toList.drop lead.length))
  else
    none

/-- `str::split_once`. -/
def splitOnce (separator : Char) (text : String) : Option (String × String) :=
  let (before, after) := text.toList.span fun char => decide (char ≠ separator)
  match after with
  | [] => none
  | _ :: rest => some (String.ofList before, String.ofList rest)

/-- `str::parse::<u64>`: an optional plus sign and decimal digits. -/
def parseWord (text : String) : Option ℕ :=
  let digits := (stripLeading "+" text).getD text
  if !digits.isEmpty && digits.toList.all Char.isDigit then
    let value := digits.toList.foldl (fun value digit => 10 * value + (digit.toNat - '0'.toNat)) 0
    if value < 2 ^ 64 then some value else none
  else
    none

def isLowerHex (length : ℕ) (text : String) : Bool :=
  decide (text.length = length) && text.toList.all fun char =>
    char.isDigit || (decide ('a' ≤ char) && decide (char ≤ 'f'))

/-! ## Chunks -/

section Chunks

/-- Birth generation of an independently named object; repairs retain it. -/
def ChunkObject.writeGeneration (chunk : ChunkObject) : Option String := do
  let value ← stripLeading "crc32c-v2-" chunk.id
  let (generation, object) ← splitOnce '-' value
  if isLowerHex 32 generation && isLowerHex 32 object then
    some generation
  else
    none

/-- The 64 lower-case hexadecimal digits of a digest. -/
def hexDigits (digest : Digest) : List Char :=
  (List.range 64).map fun place =>
    Nat.digitChar (digest.toNat / 16 ^ (63 - place) % 16)

def generationId [Hash] (operation : OperationId) : String :=
  String.ofList ((hexDigits (Hash.blake3 (utf8 operation))).take 32)

def ChunkObject.isSegmentCrc32c (chunk : ChunkObject) : Bool :=
  decide (chunk.contentDigest.algorithm = .crc32cSegmentsV1)

def contentAddressedParts (chunkId : ChunkId) : Option (String × ℕ) := do
  let content ← stripLeading "blake3-" chunkId
  let (digest, length) ← splitOnce '-' content
  let parsedLength ← parseWord length
  if isLowerHex 64 digest && decide (toString parsedLength = length) then
    some (digest, parsedLength)
  else
    none

def hexValue (char : Char) : ℕ :=
  if char.isDigit then char.toNat - '0'.toNat else char.toNat - 'a'.toNat + 10

def ChunkObject.fromContentAddressedId (chunkId : ChunkId) : Option ChunkObject := do
  let (hex, length) ← contentAddressedParts chunkId
  let bytes := hex.toList.foldl (fun value char => 16 * value + hexValue char) 0
  return {
    id := chunkId
    length := length
    contentDigest := ⟨.blake3, BitVec.ofNat 256 bytes⟩
    encoding := .raw }

def ChunkObject.validImmutableIdentity (chunk : ChunkObject) : Bool :=
  if !chunk.isSegmentCrc32c then
    decide (ChunkObject.fromContentAddressedId chunk.id = some chunk)
  else
    decide (0 < chunk.length) && decide (chunk.length ≤ 4 * 1024 * 1024) &&
      decide (chunk.encoding = .raw) && chunk.writeGeneration.isSome

end Chunks

end AgentDx.Dfs
