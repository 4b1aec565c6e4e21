/-
# The bytes of hashes, counters and amounts

The fixed-width fields that hash preimages are made of: `uint256`, `uint32_t`
and `CAmount` as `src/serialize.h` writes them, and the reading of a digest back
as bytes and as little-endian words.
-/

import Btx.Shielded.Bundle
import Btx.Util.Codec

namespace Btx

open Util

/-- `uint256`. -/
def uint256Bytes (x : Uint256) : List UInt8 := Writer.bigEndian 32 x.toNat

/-- `uint32_t`. -/
def uint32Bytes (n : ℕ) : List UInt8 := Writer.littleEndian 4 n

/-- `CAmount`. -/
def amountBytes (value : CAmount) : List UInt8 := Writer.signedLittleEndian 8 value

@[simp] theorem uint256Bytes_length (x : Uint256) : (uint256Bytes x).length = 32 :=
  Writer.bigEndian_length _ _

theorem uint256Bytes_injective {x y : Uint256} (h : uint256Bytes x = uint256Bytes y) : x = y := by
  have hx : x.toNat < 256 ^ 32 := x.isLt
  have hy : y.toNat < 256 ^ 32 := y.isLt
  exact BitVec.eq_of_toNat_eq (Writer.bigEndian_injective hx hy h)

/-- `uint256{span}`: the value with these 32 bytes. -/
def uint256OfBytes (bytes : List UInt8) : Uint256 := BitVec.ofNat 256 (Reader.ofBigEndian bytes)

@[simp] theorem uint256OfBytes_uint256Bytes (x : Uint256) :
    uint256OfBytes (uint256Bytes x) = x := by
  have hx : x.toNat < 256 ^ 32 := x.isLt
  rw [uint256OfBytes, uint256Bytes, Codec.ofBigEndian_bigEndian, Nat.mod_eq_of_lt hx,
    BitVec.ofNat_toNat, BitVec.setWidth_eq]

end Btx
