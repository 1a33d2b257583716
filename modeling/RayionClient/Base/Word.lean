/-
  Four bytes in memory and the 32-bit words made of them.

  `loadLE` is the word a little-endian machine loads from four bytes, `loadBE`
  the one it would load from them in network order.  `wordByte` takes a loaded
  word apart again by shift and mask (`wordByte_loadLE`), `ntohl` swaps its
  bytes (`ntohl_loadLE`), and `packBE` builds a word by shifts and `or`
  (`packBE_eq`).
-/
import Mathlib.Data.Nat.Bitwise
import Mathlib.Data.Fintype.Basic
import Mathlib.Tactic.FinCases
import Mathlib.Tactic.NormNum

namespace Base

/-- Four bytes at increasing addresses. -/
abbrev Bytes4 := Fin 4 → UInt8

/-- The word that a little-endian machine loads. -/
def loadLE (b : Bytes4) : UInt32 :=
  UInt32.ofNat ((b 0).toNat + 2 ^ 8 * (b 1).toNat + 2 ^ 16 * (b 2).toNat + 2 ^ 24 * (b 3).toNat)

/-- The word in network byte order. -/
def loadBE (b : Bytes4) : UInt32 := loadLE fun j => b (Fin.rev j)

/-- Byte `j` of a word, by shift and mask: `w >> (j * 8) & 255`. -/
def wordByte (w : UInt32) (j : Fin 4) : UInt32 := w >>> UInt32.ofNat (j * 8) &&& 255

/-- The byte swap of a little-endian host. -/
def ntohl (w : UInt32) : UInt32 := loadBE fun j => (wordByte w j).toUInt8

/-- A word made of four bytes, the first one highest. -/
def packBE (b : Bytes4) : UInt32 :=
  (b 3).toUInt32 ||| (b 2).toUInt32 <<< 8 ||| (b 1).toUInt32 <<< 16 ||| (b 0).toUInt32 <<< 24

theorem loadLE_toNat (b : Bytes4) : (loadLE b).toNat =
    (b 0).toNat + 2 ^ 8 * (b 1).toNat + 2 ^ 16 * (b 2).toNat + 2 ^ 24 * (b 3).toNat := by
  have h0 := (b 0).toNat_lt
  have h1 := (b 1).toNat_lt
  have h2 := (b 2).toNat_lt
  have h3 := (b 3).toNat_lt
  rw [loadLE, UInt32.toNat_ofNat_of_lt' (by simp only [UInt32.size]; omega)]

theorem wordByte_toNat (w : UInt32) (j : Fin 4) :
    (wordByte w j).toNat = w.toNat / 2 ^ (8 * (j : ℕ)) % 2 ^ 8 := by
  have hj : ((j : ℕ) * 8) % 2 ^ 32 % 32 = 8 * (j : ℕ) := by omega
  rw [wordByte, UInt32.toNat_and, UInt32.toNat_shiftRight, UInt32.toNat_ofNat', hj,
    Nat.shiftRight_eq_div_pow]
  exact Nat.and_two_pow_sub_one_eq_mod _ 8

/-- **Shift and mask take a loaded word apart.** -/
theorem wordByte_loadLE (b : Bytes4) (j : Fin 4) : (wordByte (loadLE b) j).toNat = (b j).toNat := by
  have h0 := (b 0).toNat_lt
  have h1 := (b 1).toNat_lt
  have h2 := (b 2).toNat_lt
  have h3 := (b 3).toNat_lt
  rw [wordByte_toNat, loadLE_toNat]
  fin_cases j <;> simp <;> omega

theorem wordByte_loadLE_toUInt8 (b : Bytes4) (j : Fin 4) :
    (wordByte (loadLE b) j).toUInt8 = b j := by
  rw [← UInt8.toNat_inj, UInt32.toNat_toUInt8, wordByte_loadLE]
  exact Nat.mod_eq_of_lt (b j).toNat_lt

theorem loadLE_wordByte (w : UInt32) : loadLE (fun j => (wordByte w j).toUInt8) = w := by
  have hw := w.toNat_lt
  rw [← UInt32.toNat_inj, loadLE_toNat]
  simp only [UInt32.toNat_toUInt8, wordByte_toNat]
  change w.toNat / 2 ^ 0 % 2 ^ 8 % 2 ^ 8 + 2 ^ 8 * (w.toNat / 2 ^ 8 % 2 ^ 8 % 2 ^ 8) +
    2 ^ 16 * (w.toNat / 2 ^ 16 % 2 ^ 8 % 2 ^ 8) + 2 ^ 24 * (w.toNat / 2 ^ 24 % 2 ^ 8 % 2 ^ 8) = _
  omega

theorem ntohl_loadLE (b : Bytes4) : ntohl (loadLE b) = loadBE b := by
  rw [ntohl]; congr 1; funext j; exact wordByte_loadLE_toUInt8 b j

/-- Disjoint bits: `or` is addition. -/
theorem or_mul_pow {x k : ℕ} (h : x < 2 ^ k) (y : ℕ) : x ||| 2 ^ k * y = x + 2 ^ k * y := by
  rw [Nat.lor_comm, ← Nat.two_pow_add_eq_or_of_lt h, Nat.add_comm]

theorem packBE_eq (b : Bytes4) : packBE b = loadBE b := by
  have h0 := (b 0).toNat_lt
  have h1 := (b 1).toNat_lt
  have h2 := (b 2).toNat_lt
  have h3 := (b 3).toNat_lt
  have hs : ∀ {x k : ℕ}, x * 2 ^ k < 2 ^ 32 → x * 2 ^ k % 2 ^ 32 = 2 ^ k * x := by
    intro x k h; rw [Nat.mod_eq_of_lt h, Nat.mul_comm]
  have or2 := or_mul_pow h3 (b 2).toNat
  have or1 := or_mul_pow (x := (b 3).toNat + 2 ^ 8 * (b 2).toNat) (k := 16) (by omega) (b 1).toNat
  have or0 := or_mul_pow (x := (b 3).toNat + 2 ^ 8 * (b 2).toNat + 2 ^ 16 * (b 1).toNat) (k := 24)
    (by omega) (b 0).toNat
  rw [← UInt32.toNat_inj, loadBE, loadLE_toNat]
  simp only [packBE, UInt32.toNat_or, UInt32.toNat_shiftLeft, UInt8.toNat_toUInt32,
    Nat.shiftLeft_eq, UInt32.reduceToNat, Nat.reduceMod]
  rw [hs (by omega), hs (by omega), hs (by omega), or2, or1, or0]
  rfl

end Base
