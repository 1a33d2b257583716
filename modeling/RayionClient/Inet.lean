/-
  The address conversion of Winsock.

  `inet_pton(AF_INET, text, &addr)` belongs to the operating system, so the
  model takes it as a parameter: the four bytes stored at increasing addresses,
  or `none` when the text is refused and nothing is stored.  `Lawful` is what
  its documentation says of the texts that matter here, and `strictInetPton` is
  one function that obeys it.
-/
import RayionClient.Base.Text
import RayionClient.Base.Word
import Mathlib.Data.Fin.VecNotation

namespace RayionClient

open Base

/-- `inet_pton`: the four bytes of the address, if the text is one. -/
abbrev InetPton := List UInt8 → Option Bytes4

/-- The address word after `inet_pton(AF_INET, text, &addr)`: a refused text leaves it as it
    is. -/
def addrWord (inetPton : InetPton) (text : List UInt8) (addr : UInt32) : UInt32 :=
  ((inetPton text).map loadLE).getD addr

/-- The text `a.b.c.d` of an address, without leading zeros. -/
def dottedQuad (q : Bytes4) : List UInt8 :=
  (ascii ".").intercalate (List.ofFn fun j => decimal (q j).toNat)

/-- The documented behaviour of `inet_pton(AF_INET, ..)`: a dotted quad is accepted, and a
    text that is not a bare address (one with a `:` in it) is refused. -/
structure InetPton.Lawful (inetPton : InetPton) : Prop where
  quad : ∀ q, inetPton (dottedQuad q) = some q
  colon : ∀ t, colon ∈ t → inetPton t = none

/-! ## Dotted quads -/

theorem dottedQuad_eq (q : Bytes4) : dottedQuad q = decimal (q 0).toNat ++ 46 ::
    (decimal (q 1).toNat ++ 46 :: (decimal (q 2).toNat ++ 46 :: decimal (q 3).toNat)) := by
  simp [dottedQuad, List.intercalate, show ascii "." = [46] from rfl, List.ofFn_succ]

/-- A dotted quad consists of digits and dots. -/
theorem notMem_dottedQuad {c : UInt8} (hd : isdigit c = false) (h : c ≠ 46) (q : Bytes4) :
    c ∉ dottedQuad q := by
  rw [dottedQuad_eq]
  simp [notMem_decimal hd, h]

theorem length_octet_le (b : UInt8) : (decimal b.toNat).length ≤ 3 :=
  length_decimal_le (by norm_num) (lt_trans b.toNat_lt (by norm_num))

theorem length_dottedQuad_le (q : Bytes4) : (dottedQuad q).length ≤ 15 := by
  have h0 := length_octet_le (q 0)
  have h1 := length_octet_le (q 1)
  have h2 := length_octet_le (q 2)
  have h3 := length_octet_le (q 3)
  rw [dottedQuad_eq]
  simp only [List.length_append, List.length_cons]; omega

/-! ## A strict conversion -/

/-- One to three digits up to 255. -/
def octet? (s : List UInt8) : Option UInt8 :=
  if s ≠ [] ∧ s.length ≤ 3 ∧ s.all isdigit ∧ digitsVal 0 s < 256 then
    some (UInt8.ofNat (digitsVal 0 s)) else none

/-- Exactly four octets separated by dots. -/
def strictInetPton : InetPton := fun t =>
  match t.splitOn 46 with
  | [a, b, c, d] => do return ![← octet? a, ← octet? b, ← octet? c, ← octet? d]
  | _ => none

theorem octet?_decimal (b : UInt8) : octet? (decimal b.toNat) = some b := by
  have hne : decimal b.toNat ≠ [] :=
    decimal_induction (P := fun _ l => l ≠ []) (by simp) (by simp) b.toNat
  have hd : (decimal b.toNat).all isdigit := List.all_eq_true.2 (isdigit_decimal _)
  rw [octet?, digitsVal_decimal, if_pos ⟨hne, length_octet_le b, hd, b.toNat_lt⟩,
    UInt8.ofNat_toNat]

theorem isdigit_of_octet? {s : List UInt8} {b : UInt8} (h : octet? s = some b) :
    ∀ c ∈ s, isdigit c := by
  unfold octet? at h
  split_ifs at h with hs
  exact List.all_eq_true.1 hs.2.2.1

theorem strictInetPton_lawful : InetPton.Lawful strictInetPton where
  quad q := by
    have hsplit : (dottedQuad q).splitOn 46 = List.ofFn fun j => decimal (q j).toNat := by
      refine List.splitOn_intercalate 46 ?_ (by simp)
      intro l hl
      obtain ⟨j, rfl⟩ := List.mem_ofFn.1 hl
      exact notMem_decimal rfl _
    have hparts : (List.ofFn fun j => decimal (q j).toNat) = [decimal (q 0).toNat,
        decimal (q 1).toNat, decimal (q 2).toNat, decimal (q 3).toNat] := rfl
    rw [hparts] at hsplit
    simp only [strictInetPton, hsplit, octet?_decimal]
    refine congrArg some (funext fun j => ?_)
    fin_cases j <;> rfl
  colon t ht := by
    unfold strictInetPton
    split
    · rename_i a b c d hsplit
      by_contra hne
      obtain ⟨q, hq⟩ := Option.ne_none_iff_exists'.1 hne
      simp only [bind, Option.bind_eq_some_iff] at hq
      obtain ⟨a', ha, b', hb, c', hc, d', hd, -⟩ := hq
      -- the text is its four parts with dots between them, and the parts are digits
      have hjoin : List.intercalate [46] (t.splitOn 46) = t := List.intercalate_splitOn 46
      rw [← hjoin, hsplit] at ht
      simp only [List.intercalate, List.intersperse_cons_cons, List.intersperse_singleton,
        List.flatten_cons, List.flatten_nil, List.mem_append, List.mem_singleton,
        List.not_mem_nil, or_false] at ht
      have key : ∀ {s o}, octet? s = some o → colon ∉ s :=
        fun h hm => absurd (isdigit_of_octet? h _ hm) (by decide)
      simp [key ha, key hb, key hc, key hd, show colon ≠ 46 by decide] at ht
    · rfl

end RayionClient
