/-
  Texts in C: string literals, `strstr`, `atoi`, and decimal numbers.

  * `strstr_eq_some_iff`: `strstr` finds the first occurrence.
  * `atoi_decimal`: `atoi` reads back the decimal text of a number.
  * `atoi_neg_iff`, `digits_of_le_atoi`: the texts with a negative value, and
    those with a large one.
-/
import Mathlib.Data.List.Infix
import Mathlib.Data.List.TakeWhile
import Mathlib.Tactic.Ring

namespace Base

/-- The characters of an ASCII literal. -/
def ascii (s : String) : List UInt8 := s.toList.map fun c => c.toNat.toUInt8

/-- A NUL-terminated string, without its terminator. -/
@[ext] structure CStr where
  bytes : List UInt8
  nulFree : 0 ∉ bytes
  deriving DecidableEq

/-- `':'` -/
abbrev colon : UInt8 := 58

/-- `'/'` -/
abbrev slash : UInt8 := 47

/-- `s[i]` for `i` up to the length of `s`, where the terminator stands. -/
def charAt (s : List UInt8) (i : ℕ) : UInt8 := s.getD i 0

/-! ## Searching -/

/-- `strstr`: the rest of `s` from the first occurrence of `pat` on. -/
def strstr : List UInt8 → List UInt8 → Option (List UInt8)
  | [], pat => if pat = [] then some [] else none
  | c :: s, pat => if pat.isPrefixOf (c :: s) then some (c :: s) else strstr s pat

/-- `t` is what follows `u` in `s`, and `pat` occurs in `s` right after `u` but not before. -/
def FirstAt (s pat u t : List UInt8) : Prop :=
  s = u ++ t ∧ pat <+: t ∧ ∀ v, v ++ pat <+: s → u.length ≤ v.length

theorem strstr_eq_some_iff {pat : List UInt8} : ∀ {s t : List UInt8},
    strstr s pat = some t ↔ ∃ u, FirstAt s pat u t
  | [], t => by
    simp only [strstr, FirstAt]
    constructor
    · intro h
      split_ifs at h with hp
      cases h; exact ⟨[], rfl, by simp [hp], by simp⟩
    · rintro ⟨u, h, hp, -⟩
      obtain ⟨rfl, rfl⟩ := List.append_eq_nil_iff.1 h.symm
      simp [List.prefix_nil.1 hp]
  | c :: s, t => by
    simp only [strstr, List.isPrefixOf_iff_prefix]
    by_cases hp : pat <+: c :: s
    · rw [if_pos hp]
      constructor
      · intro h; cases h; exact ⟨[], rfl, hp, fun v _ => Nat.zero_le _⟩
      · rintro ⟨u, h, -, hfirst⟩
        have hu : u = [] := List.length_eq_zero_iff.1 (Nat.le_zero.1 (hfirst [] hp))
        rw [h, hu, List.nil_append]
    · rw [if_neg hp, @strstr_eq_some_iff pat s]
      constructor
      · rintro ⟨u, h, hpt, hfirst⟩
        refine ⟨c :: u, by rw [h, List.cons_append], hpt, ?_⟩
        intro v hv
        cases v with
        | nil => exact absurd hv hp
        | cons d v =>
          simp only [List.cons_append, List.cons_prefix_cons] at hv
          simpa using hfirst v hv.2
      · rintro ⟨u, h, hpt, hfirst⟩
        cases u with
        | nil => exact absurd (h ▸ hpt) hp
        | cons d u =>
          simp only [List.cons_append, List.cons.injEq] at h
          obtain ⟨rfl, rfl⟩ := h
          refine ⟨u, rfl, hpt, ?_⟩
          intro v hv
          simpa using hfirst (c :: v) (by simpa using hv)

theorem FirstAt.strstr {s pat u t : List UInt8} (h : FirstAt s pat u t) : strstr s pat = some t :=
  strstr_eq_some_iff.2 ⟨u, h⟩

/-! ## Numbers -/

/-- `isspace`, in the C locale. -/
def isspace (c : UInt8) : Bool := c = 32 || (9 ≤ c && c ≤ 13)

/-- `isdigit`, in the C locale. -/
def isdigit (c : UInt8) : Bool := 48 ≤ c && c ≤ 57

/-- The value of the leading digits of a text, after the digits read so far. -/
def digitsVal (acc : ℕ) : List UInt8 → ℕ
  | [] => acc
  | c :: l => if isdigit c then digitsVal (10 * acc + (c.toNat - 48)) l else acc

/-- `atoi`: white space, a sign, digits; what follows them is ignored, and a text without
    digits is 0.  The result is exact: overflow needs ten digits. -/
def atoi (s : List UInt8) : ℤ :=
  match s.dropWhile isspace with
  | [] => 0
  | c :: l =>
    if c = 45 then -(digitsVal 0 l : ℤ)
    else if c = 43 then digitsVal 0 l
    else digitsVal 0 (c :: l)

/-- The canonical decimal text of a number. -/
def decimal (n : ℕ) : List UInt8 := (Nat.toDigits 10 n).map fun c => c.toNat.toUInt8

/-- The character of a digit. -/
def digit (d : ℕ) : UInt8 := (48 + d).toUInt8

theorem digitChar_eq_digit {d : ℕ} (h : d < 10) : (Nat.digitChar d).toNat.toUInt8 = digit d := by
  revert d; decide

theorem isdigit_digit {d : ℕ} (h : d < 10) : isdigit (digit d) := by
  revert d; decide

theorem toNat_digit {d : ℕ} (h : d < 10) : (digit d).toNat - 48 = d := by
  revert d; decide

/-- Induction over a decimal text: a single digit, or one digit more after a nonzero number. -/
theorem decimal_induction {P : ℕ → List UInt8 → Prop} (one : ∀ d < 10, P d [digit d])
    (more : ∀ m d, 0 < m → d < 10 → P m (decimal m) → P (10 * m + d) (decimal m ++ [digit d]))
    (n : ℕ) : P n (decimal n) := by
  induction n using Nat.strong_induction_on with
  | _ n ih =>
    by_cases h : n < 10
    · have hn : decimal n = [digit n] := by
        rw [decimal, Nat.toDigits_of_lt_base h, List.map_singleton, digitChar_eq_digit h]
      rw [hn]; exact one n h
    · have hd : n % 10 < 10 := Nat.mod_lt n (by omega)
      have hn : decimal n = decimal (n / 10) ++ [digit (n % 10)] := by
        rw [decimal, Nat.toDigits_eq_if (by omega), if_neg h, List.map_append, List.map_singleton,
          digitChar_eq_digit hd, ← decimal]
      have := more (n / 10) (n % 10) (by omega) hd (ih (n / 10) (by omega))
      rwa [Nat.div_add_mod, ← hn] at this

theorem isdigit_decimal (n : ℕ) : ∀ c ∈ decimal n, isdigit c := by
  refine decimal_induction (P := fun _ l => ∀ c ∈ l, isdigit c) ?_ ?_ n
  · intro d hd c hc
    rw [List.mem_singleton.1 hc]; exact isdigit_digit hd
  · intro m d _ hd ih c hc
    rcases List.mem_append.1 hc with hc | hc
    · exact ih c hc
    · rw [List.mem_singleton.1 hc]; exact isdigit_digit hd

/-- A number below `10 ^ k` has at most `k` digits. -/
theorem length_decimal_le {n k : ℕ} (hk : 0 < k) (h : n < 10 ^ k) : (decimal n).length ≤ k := by
  refine decimal_induction (P := fun n l => ∀ k, 0 < k → n < 10 ^ k → l.length ≤ k)
    (fun d _ k hk _ => hk) ?_ n k hk h
  intro m d hm _ ih k hk h
  obtain ⟨k, rfl⟩ : ∃ j, k = j + 1 := ⟨k - 1, by omega⟩
  rw [pow_succ] at h
  have hk' : 0 < k := Nat.pos_of_ne_zero fun h0 => by subst h0; omega
  have := ih k hk' (by omega)
  simpa using this

/-- Digits are read from the left. -/
theorem digitsVal_append {l : List UInt8} (h : ∀ c ∈ l, isdigit c) (r : List UInt8) (acc : ℕ) :
    digitsVal acc (l ++ r) = digitsVal (digitsVal acc l) r := by
  induction l generalizing acc with
  | nil => rfl
  | cons c l ih =>
    have hc := h c (by simp)
    simp only [List.cons_append, digitsVal, hc, if_true]
    exact ih (fun d hd => h d (List.mem_cons_of_mem _ hd)) _

theorem digitsVal_decimal (n : ℕ) : digitsVal 0 (decimal n) = n := by
  have hlast : ∀ acc d, d < 10 → digitsVal acc [digit d] = 10 * acc + d := by
    intro acc d hd
    simp only [digitsVal, isdigit_digit hd, if_true, toNat_digit hd]
  refine decimal_induction (P := fun n l => digitsVal 0 l = n) ?_ ?_ n
  · intro d hd
    rw [hlast 0 d hd]; omega
  · intro m d _ hd ih
    rw [digitsVal_append (isdigit_decimal m), ih, hlast m d hd]

theorem isdigit_not_special {c : UInt8} (h : isdigit c) : ¬ isspace c ∧ c ≠ 45 ∧ c ≠ 43 := by
  simp only [isdigit, isspace, Bool.and_eq_true, decide_eq_true_eq, Bool.or_eq_true] at h ⊢
  refine ⟨?_, ?_, ?_⟩ <;> rintro h' <;>
    simp [UInt8.le_iff_toNat_le, ← UInt8.toNat_inj] at * <;> omega

theorem atoi_of_digits {s : List UInt8} (h : ∀ c ∈ s, isdigit c) : atoi s = digitsVal 0 s := by
  cases s with
  | nil => rfl
  | cons c l =>
    obtain ⟨hs, hm, hp⟩ := isdigit_not_special (h c (by simp))
    rw [atoi, List.dropWhile_cons_of_neg hs]
    simp only [hm, hp, if_false]

/-- **`atoi` reads back the decimal text of a number.** -/
theorem atoi_decimal (n : ℕ) : atoi (decimal n) = n := by
  rw [atoi_of_digits (isdigit_decimal n), digitsVal_decimal]

/-- A digit is none of the characters that structure an address. -/
theorem notMem_decimal {c : UInt8} (h : isdigit c = false) (n : ℕ) : c ∉ decimal n := by
  intro hc
  rw [isdigit_decimal n c hc] at h; cases h

/-! ## What `atoi` reads in any text -/

theorem isdigit_toNat {c : UInt8} (h : isdigit c) :
    c.toNat - 48 ≤ 9 ∧ (c.toNat - 48 = 0 ↔ c = 48) := by
  simp only [isdigit, Bool.and_eq_true, decide_eq_true_eq, UInt8.le_iff_toNat_le] at h
  rw [← UInt8.toNat_inj]
  have h48 : (48 : UInt8).toNat = 48 := rfl
  have h57 : (57 : UInt8).toNat = 57 := rfl
  omega

/-- A number is below a power of ten given by its leading digits. -/
theorem digitsVal_lt : ∀ (l : List UInt8) (acc : ℕ),
    digitsVal acc l < (acc + 1) * 10 ^ (l.takeWhile isdigit).length
  | [], acc => by simp [digitsVal]
  | c :: l, acc => by
    rw [digitsVal, List.takeWhile_cons]
    split_ifs with hc
    · have hd := (isdigit_toNat hc).1
      have hle : 10 * acc + (c.toNat - 48) + 1 ≤ (acc + 1) * 10 := by omega
      calc digitsVal (10 * acc + (c.toNat - 48)) l
          < (10 * acc + (c.toNat - 48) + 1) * 10 ^ (l.takeWhile isdigit).length :=
            digitsVal_lt l _
        _ ≤ (acc + 1) * 10 * 10 ^ (l.takeWhile isdigit).length := Nat.mul_le_mul_right _ hle
        _ = (acc + 1) * 10 ^ (c :: l.takeWhile isdigit).length := by
            rw [List.length_cons, pow_succ]; ring
    · simp

theorem digitsVal_eq_zero_iff : ∀ (l : List UInt8) (acc : ℕ),
    digitsVal acc l = 0 ↔ acc = 0 ∧ ∀ c ∈ l.takeWhile isdigit, c = 48
  | [], acc => by simp [digitsVal]
  | c :: l, acc => by
    rw [digitsVal, List.takeWhile_cons]
    split_ifs with hc
    · have hd := (isdigit_toNat hc).2
      rw [digitsVal_eq_zero_iff l, List.forall_mem_cons, ← hd]
      constructor
      · rintro ⟨h, hl⟩; exact ⟨by omega, by omega, hl⟩
      · rintro ⟨ha, h0, hl⟩; exact ⟨by omega, hl⟩
    · simp

/-- A minus sign and a number other than 0. -/
def Negative (s : List UInt8) : Prop :=
  ∃ l, s.dropWhile isspace = 45 :: l ∧ ∃ c ∈ l.takeWhile isdigit, c ≠ 48

theorem atoi_neg_iff {s : List UInt8} : atoi s < 0 ↔ Negative s := by
  have key : ∀ l, (∃ c ∈ l.takeWhile isdigit, c ≠ 48) ↔ digitsVal 0 l ≠ 0 := by
    intro l
    rw [ne_eq, digitsVal_eq_zero_iff l 0]
    simp
  unfold atoi Negative
  simp only [key]
  split
  · rename_i h
    simp [h]
  · rename_i c l h
    rw [h]
    simp only [List.cons.injEq, and_assoc, exists_and_left, exists_eq_left']
    split_ifs with hm hp
    · simp only [hm, true_and]; omega
    · simp only [hm, false_and, iff_false]; omega
    · simp only [hm, false_and, iff_false]; omega

/-- A number of at least `n + 1` digits in at most `n + 1` characters. -/
theorem digits_of_le_atoi {s : List UInt8} {n : ℕ} (hlen : s.length ≤ n + 1)
    (h : (10 ^ n : ℕ) ≤ atoi s) : s.length = n + 1 ∧ ∀ c ∈ s, isdigit c := by
  have hpos : 0 < 10 ^ n := Nat.pow_pos (by omega)
  -- few characters give a small number
  have small : ∀ l : List UInt8, 10 ^ n ≤ digitsVal 0 l → n < (l.takeWhile isdigit).length := by
    intro l hl
    have hlt := digitsVal_lt l 0
    by_contra hle
    have := Nat.pow_le_pow_right (n := 10) (by omega) (not_lt.1 hle)
    omega
  unfold atoi at h
  split at h
  · omega
  · rename_i c l hs
    have hsuf : (c :: l) <:+ s := hs ▸ List.dropWhile_suffix _
    have hle := hsuf.length_le
    rw [List.length_cons] at hle
    have hl := (List.takeWhile_prefix isdigit (l := l)).length_le
    split_ifs at h
    · omega
    · have := small l (by omega)
      omega
    · have hcl := small (c :: l) (by omega)
      have hpre := List.takeWhile_prefix isdigit (l := c :: l)
      have hpl := hpre.length_le
      rw [List.length_cons] at hpl
      have heq : s = c :: l := (hsuf.eq_of_length_le (by rw [List.length_cons]; omega)).symm
      have hall : (c :: l).takeWhile isdigit = c :: l :=
        hpre.eq_of_length_le (by rw [List.length_cons]; omega)
      rw [heq]
      refine ⟨by rw [List.length_cons]; omega, ?_⟩
      intro d hd
      rw [← hall] at hd
      exact List.mem_takeWhile_imp hd

end Base
