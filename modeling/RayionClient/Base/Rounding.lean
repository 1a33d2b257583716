/-
  Binary floating-point numbers, as the rational numbers they stand for.

  A format has a number of binary digits and a least exponent (`FloatFormat`);
  its numbers are the multiples `m * 2 ^ e` (`Number`), without an upper bound.
  `round` takes a rational number to the nearest one, halfway to the even one.
  The result is a number of the format (`number_round`), a number stays what it is
  (`round_eq_self`), and the error is half a unit in the last place
  (`abs_round_sub_le`), or as small a part of the number (`abs_round_sub_le_mul`).
  Scaling by a power of two and cutting off what stands before the point are exact.
-/
import Mathlib.Data.Int.Log
import Mathlib.Data.Rat.Floor
import Mathlib.Tactic.Linarith
import Mathlib.Tactic.NormNum
import Mathlib.Tactic.Positivity
import Mathlib.Tactic.Ring

namespace Base

/-! ## The nearest integer -/

/-- The nearest integer, halfway the even one. -/
def roundEven (y : ℚ) : ℤ :=
  let r := y - ⌊y⌋
  if r < 1 / 2 ∨ r = 1 / 2 ∧ ⌊y⌋ % 2 = 0 then ⌊y⌋ else ⌊y⌋ + 1

theorem abs_roundEven_sub_le (y : ℚ) : |(roundEven y : ℚ) - y| ≤ 1 / 2 := by
  have hle := Int.floor_le y
  have hlt := Int.lt_floor_add_one y
  rw [roundEven]
  split_ifs with h
  · rw [abs_le]
    have hhalf : y - ⌊y⌋ ≤ 1 / 2 := by
      rcases h with h | ⟨h, -⟩
      · exact le_of_lt h
      · exact le_of_eq h
    constructor <;> linarith
  · rw [not_or] at h
    have hhalf : 1 / 2 ≤ y - ⌊y⌋ := not_lt.1 h.1
    rw [abs_le]
    push_cast
    constructor <;> linarith

theorem roundEven_intCast (k : ℤ) : roundEven (k : ℚ) = k := by
  rw [roundEven, Int.floor_intCast, sub_self, if_pos (Or.inl (by norm_num))]

theorem roundEven_nonneg {y : ℚ} (hy : 0 ≤ y) : 0 ≤ roundEven y := by
  have hfloor : 0 ≤ ⌊y⌋ := Int.floor_nonneg.2 hy
  rw [roundEven]
  split_ifs <;> omega

theorem roundEven_nonpos {y : ℚ} (hy : y ≤ 0) : roundEven y ≤ 0 := by
  rcases eq_or_lt_of_le hy with rfl | hneg
  · exact_mod_cast (roundEven_intCast 0).le
  · have hfloor : ⌊y⌋ < 0 := Int.floor_lt.2 (by exact_mod_cast hneg)
    rw [roundEven]
    split_ifs <;> omega

/-- Rounding does not leave an interval between integers. -/
theorem abs_roundEven_le {y : ℚ} {n : ℤ} (hy : |y| ≤ n) : |roundEven y| ≤ n := by
  have herr := abs_roundEven_sub_le y
  have hlt : |(roundEven y : ℚ)| < n + 1 := by
    calc |(roundEven y : ℚ)| = |((roundEven y : ℚ) - y) + y| := by rw [sub_add_cancel]
      _ ≤ |(roundEven y : ℚ) - y| + |y| := abs_add_le _ _
      _ ≤ 1 / 2 + n := add_le_add herr hy
      _ < n + 1 := by linarith
  have hint : |roundEven y| < n + 1 := by exact_mod_cast hlt
  omega

/-! ## Quotients of natural numbers -/

/-- A remainder is not close to 0 and to the divisor, unless it is 0. -/
theorem mod_bounds {a b d : ℕ} (hb : 0 < b) (ha : d ∣ a) (hd : d ∣ b) (hdvd : ¬b ∣ a) :
    d ≤ a % b ∧ a % b + d ≤ b := by
  have hrest : d ∣ a % b := (Nat.dvd_mod_iff hd).2 ha
  have hpos : 0 < a % b := Nat.pos_of_ne_zero fun h => hdvd (Nat.dvd_of_mod_eq_zero h)
  have hlt : a % b < b := Nat.mod_lt a hb
  refine ⟨Nat.le_of_dvd hpos hrest, ?_⟩
  have hsub : d ≤ b - a % b := Nat.le_of_dvd (by omega) (Nat.dvd_sub hd hrest)
  omega

/-- A finer unit keeps numbers apart. -/
theorem strictMono_mul_div {d b : ℕ} (hd : 0 < d) (hb : d ≤ b) :
    StrictMono fun n : ℕ => n * b / d := by
  intro x y hxy
  calc x * b / d < x * b / d + 1 := Nat.lt_succ_self _
    _ = (x * b + d) / d := (Nat.add_div_right _ hd).symm
    _ ≤ y * b / d := by
      refine Nat.div_le_div_right ?_
      calc x * b + d ≤ (x + 1) * b := by rw [add_mul, one_mul]; omega
        _ ≤ y * b := Nat.mul_le_mul_right _ hxy

/-- Rounding down twice loses one, unless the quotient is exact. -/
theorem mul_div_mul_div {m a b : ℕ} (ha : 0 < a) (hab : a ≤ b) :
    m * b / a * a / b = if a ∣ m * b then m else m - 1 := by
  have hsplit := Nat.div_add_mod' (m * b) a
  have hlt : m * b % a < a := Nat.mod_lt _ ha
  split_ifs with h
  · rw [Nat.div_mul_cancel h, Nat.mul_div_cancel _ (by omega)]
  · have hpos : 0 < m * b % a := Nat.pos_of_ne_zero fun h0 => h (Nat.dvd_of_mod_eq_zero h0)
    obtain ⟨m', rfl⟩ : ∃ m', m = m' + 1 := by
      refine Nat.exists_eq_succ_of_ne_zero ?_
      rintro rfl
      simp at h
    rw [add_mul, one_mul] at hsplit hpos hlt ⊢
    refine Nat.div_eq_of_lt_le ?_ ?_
    · rw [Nat.add_sub_cancel]; omega
    · rw [Nat.add_sub_cancel, add_mul, one_mul]; omega

/-! ## Formats -/

/-- The digits of a significand, and the least exponent of the last one. -/
structure FloatFormat where
  digits : ℕ
  emin : ℤ
  digits_pos : 0 < digits

namespace FloatFormat
variable (F : FloatFormat)

/-- The exponent of the last digit of the numbers around `x`. -/
def lastExp (x : ℚ) : ℤ := max (Int.log 2 |x| + 1 - F.digits) F.emin

/-- The nearest number of the format. -/
def round (x : ℚ) : ℚ := roundEven (x / 2 ^ F.lastExp x) * 2 ^ F.lastExp x

/-- The numbers of the format. -/
def Number (x : ℚ) : Prop := ∃ m e : ℤ, |m| < 2 ^ F.digits ∧ F.emin ≤ e ∧ x = m * 2 ^ e

variable {F} {x : ℚ}

theorem two_zpow_pos (e : ℤ) : (0 : ℚ) < 2 ^ e := zpow_pos (by norm_num) e

theorem two_zpow_add (a b : ℤ) : (2 : ℚ) ^ (a + b) = 2 ^ a * 2 ^ b := zpow_add₀ (by norm_num) a b

theorem two_zpow_neg_mul (n : ℕ) : (2 : ℚ) ^ (-(n : ℤ)) * 2 ^ n = 1 := by
  rw [← zpow_natCast, ← two_zpow_add, neg_add_cancel, zpow_zero]

theorem two_zpow_le {a b : ℤ} (h : a ≤ b) : (2 : ℚ) ^ a ≤ 2 ^ b :=
  zpow_le_zpow_right₀ (by norm_num) h

/-- A power of two above `x` bounds the exponent of the last digit. -/
theorem lastExp_le {k : ℤ} (hx : |x| < 2 ^ k) (hk : F.emin ≤ k - F.digits) (h0 : x ≠ 0) :
    F.lastExp x ≤ k - F.digits := by
  have hlog : Int.log 2 |x| < k := by
    rw [← Int.lt_zpow_iff_log_lt (by norm_num) (abs_pos.2 h0)]
    exact_mod_cast hx
  exact max_le (by omega) hk

theorem round_zero : F.round 0 = 0 := by
  have h0 := roundEven_intCast 0
  rw [Int.cast_zero] at h0
  rw [round, zero_div, h0, Int.cast_zero, zero_mul]

theorem round_nonneg (hx : 0 ≤ x) : 0 ≤ F.round x := by
  have hpos := two_zpow_pos (F.lastExp x)
  refine mul_nonneg ?_ hpos.le
  exact_mod_cast roundEven_nonneg (div_nonneg hx hpos.le)

theorem round_nonpos (hx : x ≤ 0) : F.round x ≤ 0 := by
  have hpos := two_zpow_pos (F.lastExp x)
  refine mul_nonpos_of_nonpos_of_nonneg ?_ hpos.le
  exact_mod_cast roundEven_nonpos (div_nonpos_of_nonpos_of_nonneg hx hpos.le)

/-- **The error is half a unit in the last place.** -/
theorem abs_round_sub_le {k : ℤ} (hx : |x| < 2 ^ k) (hk : F.emin ≤ k - F.digits) :
    |F.round x - x| ≤ 2 ^ (k - F.digits) / 2 := by
  by_cases h0 : x = 0
  · rw [h0, round_zero, sub_self, abs_zero]
    exact (half_pos (two_zpow_pos _)).le
  · have hpos := two_zpow_pos (F.lastExp x)
    have hsplit : F.round x - x =
        ((roundEven (x / 2 ^ F.lastExp x) : ℚ) - x / 2 ^ F.lastExp x) * 2 ^ F.lastExp x := by
      rw [round, sub_mul, div_mul_cancel₀ _ hpos.ne']
    calc |F.round x - x|
        = |(roundEven (x / 2 ^ F.lastExp x) : ℚ) - x / 2 ^ F.lastExp x| * 2 ^ F.lastExp x := by
          rw [hsplit, abs_mul, abs_of_pos hpos]
      _ ≤ 1 / 2 * 2 ^ F.lastExp x :=
          mul_le_mul_of_nonneg_right (abs_roundEven_sub_le _) hpos.le
      _ ≤ 1 / 2 * 2 ^ (k - F.digits) :=
          mul_le_mul_of_nonneg_left (two_zpow_le (lastExp_le hx hk h0)) (by norm_num)
      _ = 2 ^ (k - F.digits) / 2 := by ring

/-- The error relative to a number that is not too small. -/
theorem abs_round_sub_le_mul (hx : 2 ^ (F.emin + F.digits) ≤ |x|) :
    |F.round x - x| ≤ |x| / 2 ^ F.digits := by
  have hpos : 0 < |x| := lt_of_lt_of_le (two_zpow_pos _) hx
  have hlow : (2 : ℚ) ^ Int.log 2 |x| ≤ |x| := by
    exact_mod_cast Int.zpow_log_le_self (by norm_num : 1 < 2) hpos
  have hhigh : |x| < (2 : ℚ) ^ (Int.log 2 |x| + 1) := by
    exact_mod_cast Int.lt_zpow_succ_log_self (by norm_num : 1 < 2) |x|
  have hexp : F.emin + F.digits < Int.log 2 |x| + 1 :=
    (zpow_lt_zpow_iff_right₀ (by norm_num : (1 : ℚ) < 2)).1 (lt_of_le_of_lt hx hhigh)
  calc |F.round x - x|
      ≤ 2 ^ (Int.log 2 |x| + 1 - F.digits) / 2 := abs_round_sub_le hhigh (by omega)
    _ = 2 ^ Int.log 2 |x| / 2 ^ F.digits := by
      rw [zpow_sub₀ (by norm_num), zpow_natCast, two_zpow_add, zpow_one]
      ring
    _ ≤ |x| / 2 ^ F.digits := div_le_div_of_nonneg_right hlow (by positivity)

/-- **A number of the format is not changed.** -/
theorem round_eq_self (h : F.Number x) : F.round x = x := by
  by_cases h0 : x = 0
  · rw [h0, round_zero]
  · obtain ⟨m, e, hm, he, hx⟩ := h
    have hle : F.lastExp x ≤ e := by
      have hxlt : |x| < 2 ^ (e + F.digits) := by
        have hmq : |(m : ℚ)| < 2 ^ F.digits := by exact_mod_cast hm
        rw [hx, abs_mul, abs_of_pos (two_zpow_pos e), two_zpow_add, zpow_natCast, mul_comm]
        exact mul_lt_mul_of_pos_left hmq (two_zpow_pos e)
      have := lastExp_le (F := F) hxlt (by omega) h0
      omega
    -- `x` is a multiple of its last place
    obtain ⟨j, hj⟩ : ∃ j : ℕ, e = F.lastExp x + j := ⟨(e - F.lastExp x).toNat, by omega⟩
    have hpos := two_zpow_pos (F.lastExp x)
    have hquot : x / 2 ^ F.lastExp x = ((m * 2 ^ j : ℤ) : ℚ) := by
      rw [div_eq_iff hpos.ne']
      conv_lhs => rw [hx, hj, two_zpow_add, zpow_natCast]
      push_cast
      ring
    rw [round, hquot, roundEven_intCast, ← hquot, div_mul_cancel₀ _ hpos.ne']

/-- The result of rounding is a number of the format. -/
theorem number_round (x : ℚ) : F.Number (F.round x) := by
  have hpos := two_zpow_pos (F.lastExp x)
  have hlast : F.emin ≤ F.lastExp x := le_max_right ..
  have hbound : |x / 2 ^ F.lastExp x| ≤ ((2 ^ F.digits : ℤ) : ℚ) := by
    rw [abs_div, abs_of_pos hpos, div_le_iff₀ hpos]
    push_cast
    rw [← zpow_natCast, ← two_zpow_add]
    have hlt : |x| < (2 : ℚ) ^ (Int.log 2 |x| + 1) := by
      exact_mod_cast Int.lt_zpow_succ_log_self (by norm_num : 1 < 2) |x|
    have hexp : Int.log 2 |x| + 1 ≤ F.digits + F.lastExp x := by
      have := le_max_left (Int.log 2 |x| + 1 - F.digits) F.emin
      rw [lastExp]; omega
    exact hlt.le.trans (two_zpow_le hexp)
  have hm := abs_roundEven_le hbound
  rcases lt_or_eq_of_le hm with hlt | heq
  · exact ⟨_, _, hlt, hlast, rfl⟩
  · -- a carry into a further digit
    obtain ⟨d, hd⟩ : ∃ d, F.digits = d + 1 := Nat.exists_eq_succ_of_ne_zero F.digits_pos.ne'
    have hlt : ((2 : ℤ) ^ d) < 2 ^ F.digits := by
      rw [hd]; exact pow_lt_pow_right₀ (by norm_num) (Nat.lt_succ_self d)
    have hpow : (2 : ℚ) ^ (F.lastExp x + 1) = 2 * 2 ^ F.lastExp x := by
      rw [two_zpow_add, zpow_one, mul_comm]
    rcases eq_or_eq_neg_of_abs_eq heq with h | h
    · refine ⟨2 ^ d, F.lastExp x + 1, ?_, by omega, ?_⟩
      · rwa [abs_of_pos (by positivity)]
      · rw [round, h, hpow, hd]
        push_cast
        ring
    · refine ⟨-2 ^ d, F.lastExp x + 1, ?_, by omega, ?_⟩
      · rwa [abs_neg, abs_of_pos (by positivity)]
      · rw [round, h, hpow, hd]
        push_cast
        ring

/-! ## Exact operations -/

theorem number_of_nat {n : ℕ} (hn : n < 2 ^ F.digits) {e : ℤ} (he : F.emin ≤ e) :
    F.Number (n * 2 ^ e) := by
  refine ⟨n, e, ?_, he, by push_cast; rfl⟩
  rw [Nat.abs_cast]
  exact_mod_cast hn

theorem Number.mul_two_pow (h : F.Number x) (k : ℕ) : F.Number (x * 2 ^ k) := by
  obtain ⟨m, e, hm, he, rfl⟩ := h
  refine ⟨m, e + k, hm, by omega, ?_⟩
  rw [two_zpow_add, zpow_natCast, mul_assoc]

/-- What is behind the point. -/
theorem Number.sub_floor (h : F.Number x) (hx : 0 ≤ x) : F.Number (x - ⌊x⌋) := by
  obtain ⟨m, e, hm, he, rfl⟩ := h
  have hm0 : 0 ≤ m := by
    have := nonneg_of_mul_nonneg_left hx (two_zpow_pos e)
    exact_mod_cast this
  rcases le_or_gt 0 e with hpos | hneg
  · -- an integer
    obtain ⟨j, rfl⟩ := Int.eq_ofNat_of_zero_le hpos
    have hint : (m : ℚ) * 2 ^ (j : ℤ) = ((m * 2 ^ j : ℤ) : ℚ) := by push_cast; rfl
    rw [hint, Int.floor_intCast, sub_self]
    exact ⟨0, _, by rw [abs_zero]; positivity, he, by simp⟩
  · obtain ⟨j, hj⟩ : ∃ j : ℕ, e = -j := ⟨(-e).toNat, by omega⟩
    have hfloor : 0 ≤ ⌊(m : ℚ) * 2 ^ e⌋ := Int.floor_nonneg.2 hx
    have hunit : (2 : ℚ) ^ e * 2 ^ j = 1 := by rw [hj, two_zpow_neg_mul]
    refine ⟨m - ⌊(m : ℚ) * 2 ^ e⌋ * 2 ^ j, e, ?_, he, ?_⟩
    · have hle : ⌊(m : ℚ) * 2 ^ e⌋ * 2 ^ j ≤ m := by
        have hle := mul_le_mul_of_nonneg_right (Int.floor_le ((m : ℚ) * 2 ^ e))
          (two_zpow_pos (j : ℤ)).le
        rw [zpow_natCast, mul_assoc, hunit, mul_one] at hle
        exact_mod_cast hle
      have hpow : (0 : ℤ) < 2 ^ j := by positivity
      rw [abs_of_nonneg hm0] at hm
      rw [abs_of_nonneg (by omega)]
      have := mul_nonneg hfloor hpow.le
      omega
    · push_cast
      rw [sub_mul, mul_assoc _ _ ((2 : ℚ) ^ e), mul_comm (2 ^ j), hunit, mul_one]

/-- There is no number closer below 1. -/
theorem Number.le_one_sub (h : F.Number x) (hx : x < 1) : x ≤ 1 - 2 ^ (-(F.digits : ℤ)) := by
  obtain ⟨m, e, hm, he, rfl⟩ := h
  have hm' : m + 1 ≤ 2 ^ F.digits := (abs_lt.1 hm).2
  have hunit : (2 : ℚ) ^ (-(F.digits : ℤ)) ≤ 1 := by
    calc (2 : ℚ) ^ (-(F.digits : ℤ)) ≤ 2 ^ (0 : ℤ) := two_zpow_le (by omega)
      _ = 1 := zpow_zero 2
  rcases le_or_gt (-(F.digits : ℤ)) e with hge | hlt
  · -- `1` and `x` are multiples of `2 ^ e`, or `x` is an integer
    rcases le_or_gt 0 e with hpos | hneg
    · obtain ⟨j, rfl⟩ := Int.eq_ofNat_of_zero_le hpos
      have hint : m * 2 ^ j < 1 := by exact_mod_cast hx
      have hle : (m : ℚ) * 2 ^ (j : ℤ) ≤ 0 := by exact_mod_cast Int.lt_add_one_iff.1 hint
      linarith
    · obtain ⟨j, hj⟩ : ∃ j : ℕ, e = -j := ⟨(-e).toNat, by omega⟩
      have hscale : (2 : ℚ) ^ e * 2 ^ j = 1 := by rw [hj, two_zpow_neg_mul]
      have hlt : m < 2 ^ j := by
        have h := mul_lt_mul_of_pos_right hx (by positivity : (0 : ℚ) < 2 ^ j)
        rw [mul_assoc, hscale, mul_one, one_mul] at h
        exact_mod_cast h
      have hle : (m : ℚ) + 1 ≤ 2 ^ j := by exact_mod_cast hlt
      have hmul := mul_le_mul_of_nonneg_right hle (two_zpow_pos e).le
      rw [add_mul, one_mul, mul_comm ((2 : ℚ) ^ j), hscale] at hmul
      have := two_zpow_le hge
      linarith
  · have hle : (m : ℚ) + 1 ≤ 2 ^ F.digits := by exact_mod_cast hm'
    have hmul := mul_le_mul_of_nonneg_left hle (two_zpow_pos (-(F.digits : ℤ))).le
    rw [two_zpow_neg_mul, mul_add, mul_one] at hmul
    rcases le_or_gt m 0 with hneg | hpos
    · have hm0 : (m : ℚ) ≤ 0 := by exact_mod_cast hneg
      have := mul_nonpos_of_nonpos_of_nonneg hm0 (two_zpow_pos e).le
      linarith
    · have hm0 : (0 : ℚ) ≤ m := by exact_mod_cast hpos.le
      have := mul_le_mul_of_nonneg_left (two_zpow_le hlt.le) hm0
      linarith

end FloatFormat

end Base
