/-
  Tagged records in a byte string.

  A record is a tag other than zero, a byte with its length, and so many bytes; a list
  of records ends with a zero byte.  `At data o bytes` says that a byte string occurs at
  an offset; it splits along `++` and `::` (`at_append`, `at_cons`), so a reader that
  follows the format reads what has been written (`at_record_iff`).
-/
import Mathlib.Data.List.Infix
import Mathlib.Tactic.Common

namespace Base

section
variable {α : Type}

/-- `bytes` occurs in `data` at offset `o`. -/
def At (data : List α) (o : ℕ) (bytes : List α) : Prop := bytes <+: data.drop o

variable {data bytes l₁ l₂ : List α} {o : ℕ} {x : α}

theorem at_append : At data o (l₁ ++ l₂) ↔ At data o l₁ ∧ At data (o + l₁.length) l₂ := by
  rw [At, At, At, ← List.drop_drop]
  constructor
  · rintro ⟨rest, h⟩
    rw [List.append_assoc] at h
    rw [← h, List.drop_left]
    exact ⟨List.prefix_append _ _, List.prefix_append _ _⟩
  · rintro ⟨⟨rest, h⟩, h₂⟩
    rw [← h, List.drop_left] at h₂
    rw [← h]
    exact (List.prefix_append_right_inj _).2 h₂

theorem at_cons : At data o (x :: l₂) ↔ data[o]? = some x ∧ At data (o + 1) l₂ := by
  have hone : At data o [x] ↔ data[o]? = some x := by
    rw [At, ← List.head?_drop]
    cases data.drop o with
    | nil => simp
    | cons y l => simp [List.cons_prefix_cons, eq_comm]
  rw [← List.singleton_append, at_append, hone]; rfl

theorem At.length_le (h : At data o bytes) : bytes.length ≤ data.length - o := by
  rw [← List.length_drop]; exact List.IsPrefix.length_le h

theorem At.getElem? {i : ℕ} (h : At data o bytes) (hi : i < bytes.length) :
    data[o + i]? = some bytes[i] := by
  obtain ⟨rest, h⟩ := h
  rw [← List.getElem?_drop, ← h, List.getElem?_append_left hi, List.getElem?_eq_getElem hi]

/-- What is read there. -/
theorem At.read (h : At data o bytes) : (data.drop o).take bytes.length = bytes :=
  (List.prefix_iff_eq_take.1 h).symm

/-- One of several strings of the same length. -/
theorem At.flatMap {β : Type} {f : β → List α} {k : ℕ} {l : List β}
    (hk : ∀ x, (f x).length = k) (h : At data o (l.flatMap f)) {i : ℕ} (hi : i < l.length) :
    At data (o + i * k) (f l[i]) := by
  induction l generalizing o i with
  | nil => exact absurd hi (Nat.not_lt_zero _)
  | cons x l ih =>
    rw [List.flatMap_cons, at_append, hk] at h
    cases i with
    | zero => rw [Nat.zero_mul]; exact h.1
    | succ i =>
      have hrest := ih h.2 (Nat.lt_of_succ_lt_succ hi)
      rw [Nat.add_mul, Nat.one_mul, Nat.add_comm (i * k), ← Nat.add_assoc]; exact hrest

end

/-! ## Records -/

/-- A tag and at most 255 bytes. -/
structure Record where
  tag : UInt8
  body : List UInt8
  tag_ne : tag ≠ 0
  length_le : body.length ≤ 255

namespace Record

/-- The tag, the length and the bytes. -/
def bytes (r : Record) : List UInt8 := r.tag :: UInt8.ofNat r.body.length :: r.body

theorem length_bytes (r : Record) : r.bytes.length = 2 + r.body.length := by
  rw [bytes, List.length_cons, List.length_cons]; omega

/-- The length byte. -/
theorem length_toNat (r : Record) : (UInt8.ofNat r.body.length).toNat = r.body.length := by
  have hle := r.length_le
  rw [UInt8.toNat_ofNat', Nat.mod_eq_of_lt (by omega)]

end Record

/-- The records of a list, one behind the other. -/
def recordBytes (l : List Record) : List UInt8 := l.flatMap Record.bytes

theorem recordBytes_cons (r : Record) (l : List Record) :
    recordBytes (r :: l) = r.bytes ++ recordBytes l := List.flatMap_cons

theorem recordBytes_append (l l' : List Record) :
    recordBytes (l ++ l') = recordBytes l ++ recordBytes l' := List.flatMap_append

theorem length_le_recordBytes (l : List Record) : l.length ≤ (recordBytes l).length := by
  induction l with
  | nil => exact Nat.le_refl _
  | cons r l ih =>
    rw [recordBytes_cons, List.length_append, Record.length_bytes, List.length_cons]
    omega

section
variable {data rest : List UInt8} {o : ℕ} {r : Record} {l : List Record}

/-- The fields of the record at an offset, and what is behind it. -/
theorem at_record_iff : At data o (recordBytes (r :: l) ++ rest) ↔
    data[o]? = some r.tag ∧ data[o + 1]? = some (UInt8.ofNat r.body.length) ∧
      At data (o + 2) r.body ∧ At data (o + 2 + r.body.length) (recordBytes l ++ rest) := by
  rw [recordBytes_cons, List.append_assoc, at_append, Record.length_bytes, Record.bytes, at_cons,
    at_cons, Nat.add_assoc o 2 r.body.length, and_assoc, and_assoc]

/-- A byte other than zero begins a record, if there are enough bytes. -/
theorem exists_record_at {tag length : UInt8} (hne : tag ≠ 0) (htag : data[o]? = some tag)
    (hlen : data[o + 1]? = some length) (hle : o + 2 + length.toNat ≤ data.length)
    (hrest : At data (o + 2 + length.toNat) (recordBytes l ++ rest)) :
    ∃ r, At data o (recordBytes (r :: l) ++ rest) := by
  have hbody : ((data.drop (o + 2)).take length.toNat).length = length.toNat := by
    rw [List.length_take, List.length_drop]; omega
  have hlt := length.toNat_lt
  refine ⟨⟨tag, (data.drop (o + 2)).take length.toNat, hne, by rw [hbody]; omega⟩, ?_⟩
  refine at_record_iff.2 ⟨htag, ?_, List.take_prefix _ _, ?_⟩
  · show _ = some (UInt8.ofNat ((data.drop (o + 2)).take length.toNat).length)
    rw [hbody, UInt8.ofNat_toNat, hlen]
  · show At data (o + 2 + ((data.drop (o + 2)).take length.toNat).length) _
    rw [hbody]; exact hrest

end

end Base
