/-
  rtpstructs.h — the header that all RTCP packets begin with.

  `headerCount` reads its field `count`, which `commonHeader` has written.
-/
import Mathlib.Data.Int.Notation
import Mathlib.Data.Nat.Notation
import Mathlib.Tactic.Common

namespace RayionClient

/-- `sizeof(RTCPCommonHeader)` -/
def sizeofCommonHeader : ℕ := 4

/-- `sizeof(uint32_t)` -/
def sizeofUint32 : ℕ := 4

/-- `hdr->count`: the low five bits of the first byte. -/
def headerCount (data : List UInt8) : Option ℤ :=
  (data[0]?).map fun hdr => ((hdr &&& 31).toNat : ℤ)

/-- A header of version 2, without padding, in front of `len` bytes. -/
def commonHeader (count : ℕ) (packettype : UInt8) (len : ℕ) : List UInt8 :=
  [128 + UInt8.ofNat count, packettype, UInt8.ofNat (len / 4 / 256), UInt8.ofNat (len / 4)]

theorem length_commonHeader (count : ℕ) (packettype : UInt8) (len : ℕ) :
    (commonHeader count packettype len).length = sizeofCommonHeader := rfl

theorem headerCount_commonHeader {count : ℕ} (h : count ≤ 31) (packettype : UInt8) (len : ℕ)
    (rest : List UInt8) :
    headerCount (commonHeader count packettype len ++ rest) = some ↑count := by
  have hall : ∀ n < 32, ((128 + UInt8.ofNat n) &&& 31).toNat = n := by decide
  show some (((128 + UInt8.ofNat count) &&& 31).toNat : ℤ) = some ↑count
  rw [hall count (by omega)]

end RayionClient
