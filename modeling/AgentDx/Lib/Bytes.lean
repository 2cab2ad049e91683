import Mathlib

/-!
# Byte encodings

Readers take a value off the front of a byte string.  A reader fits a writer
when it returns what was written and leaves the rest.  The module has the three
encodings a framed log needs: big-endian words, arrays of a fixed number of
bytes, and variable-length integers of seven bits a byte.
-/

namespace AgentDx.Bytes

/-- A reader takes a value off the front of its input. -/
abbrev Reader (A : Type) := List UInt8 → Option (A × List UInt8)

/-- The reader returns what the writer wrote, whatever follows. -/
def Fits {A : Type} (read : Reader A) (write : A → List UInt8) (value : A) : Prop :=
  ∀ rest, read (write value ++ rest) = some (value, rest)

/-! ## Big-endian words -/

/-- The low bytes of a value, most significant first. -/
def bigEndian : ℕ → ℕ → List UInt8
  | 0, _ => []
  | width + 1, value => bigEndian width (value / 256) ++ [UInt8.ofNat value]

def fromBigEndian (bytes : List UInt8) : ℕ :=
  bytes.foldl (fun value byte => value * 256 + byte.toNat) 0

@[simp]
lemma length_bigEndian (width value) : (bigEndian width value).length = width := by
  induction width generalizing value with
  | zero => rfl
  | succ width ih => simp [bigEndian, ih]

lemma fromBigEndian_bigEndian (hval : value < 256 ^ width) :
    fromBigEndian (bigEndian width value) = value := by
  induction width generalizing value with
  | zero =>
    rw [pow_zero, Nat.lt_one_iff] at hval
    rw [hval]
    rfl
  | succ width ih =>
    have hhigh : value / 256 < 256 ^ width := by
      apply Nat.div_lt_of_lt_mul
      rwa [← pow_succ']
    calc fromBigEndian (bigEndian (width + 1) value)
      _ = fromBigEndian (bigEndian width (value / 256)) * 256 + (UInt8.ofNat value).toNat := by
          simp [fromBigEndian, bigEndian]
      _ = value / 256 * 256 + value % 256 := by
          rw [ih hhigh]
          simp
      _ = value := Nat.div_add_mod' value 256

/-! ## Arrays -/

/-- The bytes of an array of fixed length, first byte most significant. -/
def arrayBytes {size : ℕ} (array : BitVec (8 * size)) : List UInt8 := bigEndian size array.toNat

def readArray (size : ℕ) : Reader (BitVec (8 * size)) := fun input =>
  if size ≤ input.length then
    some (BitVec.ofNat _ (fromBigEndian (input.take size)), input.drop size)
  else
    none

@[simp]
lemma length_arrayBytes (array : BitVec (8 * size)) : (arrayBytes array).length = size :=
  length_bigEndian _ _

lemma readArray_fits (array : BitVec (8 * size)) : Fits (readArray size) arrayBytes array := by
  intro rest
  have hbound : array.toNat < 256 ^ size := by
    have hlt := array.isLt
    rwa [pow_mul] at hlt
  have htake : (arrayBytes array ++ rest).take size = arrayBytes array :=
    List.take_left' (length_arrayBytes array)
  have hdrop : (arrayBytes array ++ rest).drop size = rest :=
    List.drop_left' (length_arrayBytes array)
  have hval : fromBigEndian (arrayBytes array) = array.toNat := fromBigEndian_bigEndian hbound
  simp [readArray, htake, hdrop, hval]

/-! ## Variable-length integers -/

/-- Seven bits a byte, least significant first; the high bit says that more
bytes follow. -/
def varint : ℕ → ℕ → List UInt8
  | 0, _ => []
  | width + 1, value =>
    if value < 128 then
      [UInt8.ofNat value]
    else
      UInt8.ofNat (value % 128 + 128) :: varint width (value / 128)

/-- Reads at most `width` bytes; the last one may not exceed `last`. -/
def readVarint (last : ℕ) : ℕ → Reader ℕ
  | 0, _ => none
  | _ + 1, [] => none
  | width + 1, byte :: rest =>
    if byte.toNat < 128 then
      if width = 0 ∧ last < byte.toNat then none else some (byte.toNat, rest)
    else
      (readVarint last width rest).map fun (value, rest) =>
        (byte.toNat - 128 + 128 * value, rest)

lemma readVarint_varint (hlast : last < 128) (hval : value < 128 ^ width * (last + 1)) (rest) :
    readVarint last (width + 1) (varint (width + 1) value ++ rest) = some (value, rest) := by
  induction width generalizing value with
  | zero =>
    rw [pow_zero, Nat.one_mul] at hval
    have hsmall : value < 128 := by omega
    have hbyte : value % 256 = value := by omega
    have hfits : ¬ last < value := by omega
    simp [varint, readVarint, hsmall, hbyte, hfits]
  | succ width ih =>
    by_cases hsmall : value < 128
    · have hbyte : value % 256 = value := by omega
      simp [varint, readVarint, hsmall, hbyte]
    · have hhigh : value / 128 < 128 ^ width * (last + 1) := by
        apply Nat.div_lt_of_lt_mul
        rwa [← Nat.mul_assoc, ← pow_succ']
      have hbyte : (UInt8.ofNat (value % 128 + 128)).toNat = value % 128 + 128 := by
        have hlow := Nat.mod_lt value (show 0 < 128 by decide)
        rw [UInt8.toNat_ofNat']
        omega
      rw [varint, if_neg hsmall, List.cons_append, readVarint, hbyte, if_neg (by omega), ih hhigh]
      simp [Nat.mod_add_div]

lemma readVarint_fits (hlast : last < 128) (hval : value < 128 ^ width * (last + 1)) :
    Fits (readVarint last (width + 1)) (varint (width + 1)) value :=
  readVarint_varint hlast hval

end AgentDx.Bytes
