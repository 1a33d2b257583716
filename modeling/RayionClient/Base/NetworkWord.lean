/-
  32-bit words in network byte order in a byte string.

  `be32` writes a word, and `wordAt` reads it on a little-endian machine, by a load of
  four bytes and `ntohl` (`At.wordAt`).  Only bytes of the string are read, or there is
  no result (`wordAt_isSome_iff`).
-/
import RayionClient.Base.Word
import RayionClient.Base.Records
import Mathlib.Data.List.OfFn

namespace Base

/-- A word in network byte order. -/
def be32 (w : UInt32) : List UInt8 := List.ofFn fun j : Fin 4 => (wordByte w j.rev).toUInt8

/-- The load of four bytes, and the swap. -/
def wordAt (data : List UInt8) (o : ℕ) : Option UInt32 := do
  let b0 ← data[o]?
  let b1 ← data[o + 1]?
  let b2 ← data[o + 2]?
  let b3 ← data[o + 3]?
  return ntohl (loadLE fun j => [b0, b1, b2, b3].getD j 0)

variable {data : List UInt8} {o : ℕ} {w : UInt32}

theorem length_be32 (w : UInt32) : (be32 w).length = 4 := by rw [be32, List.length_ofFn]

/-- The word that a little-endian machine makes of its bytes in network order. -/
theorem ntohl_be32 (w : UInt32) : ntohl (loadLE fun j => (wordByte w j.rev).toUInt8) = w := by
  rw [ntohl_loadLE, loadBE]
  simp only [Fin.rev_rev]
  exact loadLE_wordByte w

theorem At.be32_get (h : At data o (be32 w)) (j : Fin 4) :
    data[o + j]? = some (wordByte w j.rev).toUInt8 := by
  rw [h.getElem? (by rw [length_be32]; exact j.isLt)]
  simp only [be32, List.getElem_ofFn, Fin.eta]

/-- **What has been written is read.** -/
theorem At.wordAt (h : At data o (be32 w)) : wordAt data o = some w := by
  have h0 : data[o]? = _ := h.be32_get 0
  have h1 : data[o + 1]? = _ := h.be32_get 1
  have h2 : data[o + 2]? = _ := h.be32_get 2
  have h3 : data[o + 3]? = _ := h.be32_get 3
  rw [Base.wordAt, h0, h1, h2, h3]
  refine congrArg some (Eq.trans (congrArg (ntohl ∘ loadLE) ?_) (ntohl_be32 w))
  funext j
  fin_cases j <;> rfl

theorem wordAt_isSome_iff : (wordAt data o).isSome ↔ o + 4 ≤ data.length := by
  constructor
  · intro h
    obtain ⟨w, hw⟩ := Option.isSome_iff_exists.1 h
    simp only [wordAt, Option.bind_eq_bind, Option.bind_eq_some_iff] at hw
    obtain ⟨-, -, -, -, -, -, b3, h3, -⟩ := hw
    have hlt := (List.getElem?_eq_some_iff.1 h3).1
    omega
  · intro h
    have hget : ∀ i < 4, ∃ b, data[o + i]? = some b := fun i hi =>
      ⟨_, List.getElem?_eq_getElem (by omega)⟩
    obtain ⟨b0, h0⟩ := hget 0 (by omega)
    obtain ⟨b1, h1⟩ := hget 1 (by omega)
    obtain ⟨b2, h2⟩ := hget 2 (by omega)
    obtain ⟨b3, h3⟩ := hget 3 (by omega)
    rw [wordAt, show data[o]? = some b0 from h0, h1, h2, h3]
    rfl

end Base
