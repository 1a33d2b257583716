/-
  rtptimeutilities.h — `RTPTime` as a `double` and as an NTP timestamp.

  The conversions calculate with `double`s: rational numbers that every operation
  rounds (`double`).  Those to and from NTP timestamps are exact nevertheless
  (`getNTPTime_eq`, `ofNTPTime_eq`).

  * `getNTPTime_lt_iff`: within an era, NTP timestamps are in the order of the times.
  * `ntp_roundTrips`: a time loses a microsecond with every conversion and back, down
    to the next 64th of a second.
  * `ofDouble_spec`: which `double`s give a time, and that it is a normalized one.
  * `ofDouble_getDouble`: the way to a `double` and back loses a microsecond at most.
-/
import RayionClient.Base.Rounding
import RayionClient.TimeArithmetic

namespace RayionClient

open Base

/-! ## `double` -/

/-- The format of a `double`. -/
def binary64 : FloatFormat := ⟨53, -1074, by decide⟩

/-- The result of an operation on `double`s, when it does not overflow. -/
abbrev double (x : ℚ) : ℚ := binary64.round x

/-- The conversion to `uint32_t`: it cuts off what is behind the point, and is undefined if the
    rest does not fit. -/
def toUInt32 (x : ℚ) : Option UInt32 :=
  let n := if 0 ≤ x then ⌊x⌋ else ⌈x⌉
  if 0 ≤ n ∧ n < 2 ^ 32 then some (UInt32.ofNat n.toNat) else none

/-! ## `RTPNTPTime` -/

/-- `RTPNTPTime`: seconds since 1900, and fractions of a second. -/
structure RTPNTPTime where
  msw : UInt32
  lsw : UInt32
  deriving DecidableEq

/-- As one number, in units of 2 ^ -32 seconds. -/
def RTPNTPTime.value (n : RTPNTPTime) : ℕ := n.msw.toNat * 2 ^ 32 + n.lsw.toNat

/-- `RTP_NTPTIMEOFFSET`. -/
def ntpTimeOffset : UInt32 := 2208988800

namespace RTPTime

/-- The constructor from seconds. -/
def ofDouble (t : ℚ) : Option RTPTime := do
  let sec ← toUInt32 t
  let t2 := double (t - sec.toNat)
  let t2 := double (t2 * 1000000)
  let microsec ← toUInt32 t2
  return ⟨sec, microsec⟩

/-- The constructor from an NTP timestamp. -/
def ofNTPTime (ntptime : RTPNTPTime) : Option RTPTime :=
  if ntptime.msw < ntpTimeOffset then some ⟨0, 0⟩
  else do
    let x : ℚ := ntptime.lsw.toNat
    let x := double (x / (65536 * 65536))
    let x := double (x * 1000000)
    let microsec ← toUInt32 x
    return ⟨ntptime.msw - ntpTimeOffset, microsec⟩

/-- `GetDouble`. -/
def getDouble (t : RTPTime) : ℚ := double (t.sec.toNat + double (t.microsec.toNat / 1000000))

/-- `GetNTPTime`. -/
def getNTPTime (t : RTPTime) : Option RTPNTPTime := do
  let msw := t.sec + ntpTimeOffset
  let x := double (t.microsec.toNat / 1000000)
  let x := double (x * (65536 * 65536))
  let lsw ← toUInt32 x
  return ⟨msw, lsw⟩

end RTPTime

/-! ## Conversions -/

theorem toUInt32_of_floor {x : ℚ} {n : ℕ} (hn : n < 2 ^ 32) (hx : ⌊x⌋ = n) :
    toUInt32 x = some (UInt32.ofNat n) := by
  have h0 : 0 ≤ x := Int.floor_nonneg.1 (by omega)
  rw [toUInt32, if_pos h0, hx, if_pos ⟨by omega, by exact_mod_cast hn⟩, Int.toNat_natCast]

theorem toUInt32_of_nonpos {x : ℚ} (hx : x ≤ 0) :
    toUInt32 x = if -1 < x then some 0 else none := by
  rcases eq_or_lt_of_le hx with rfl | hneg
  · rfl
  · rw [toUInt32, if_neg (not_le.2 hneg)]
    by_cases hone : -1 < x
    · have hceil : ⌈x⌉ = 0 := Int.ceil_eq_zero_iff.2 ⟨hone, hx⟩
      rw [if_pos hone, hceil]
      rfl
    · have hceil : ⌈x⌉ ≤ -1 := Int.ceil_le.2 (by exact_mod_cast not_lt.1 hone)
      rw [if_neg hone]
      exact if_neg (by omega)

/-- A number below 2 ^ 53 is not rounded, nor is its quotient by a power of two. -/
theorem double_natCast_mul {n : ℕ} (hn : n < 2 ^ 53) {e : ℤ} (he : -1074 ≤ e) :
    double (n * 2 ^ e) = n * 2 ^ e := FloatFormat.round_eq_self (FloatFormat.number_of_nat hn he)

theorem double_mul_two_pow (x : ℚ) (k : ℕ) : double (double x * 2 ^ k) = double x * 2 ^ k :=
  FloatFormat.round_eq_self ((FloatFormat.number_round x).mul_two_pow k)

/-- The error below a power of two. -/
theorem abs_double_sub_le {x : ℚ} (k : ℕ) (hx : |x| < 2 ^ k) :
    |double x - x| ≤ 2 ^ k / 2 ^ 54 := by
  have hk : (2 : ℚ) ^ ((k : ℤ) - (53 : ℕ)) / 2 = 2 ^ k / 2 ^ 54 := by
    rw [zpow_sub₀ (by norm_num), zpow_natCast, zpow_natCast, div_div]
    norm_num
  rw [← hk]
  exact FloatFormat.abs_round_sub_le (F := binary64) (by rwa [zpow_natCast])
    (by simp only [binary64]; omega)

/-! ## NTP timestamps -/

namespace RTPTime
variable {t : RTPTime}

/-- The microseconds that are multiples of 2 ^ -32 seconds are those of the 64ths. -/
theorem million_dvd_iff {m : ℕ} : 1000000 ∣ m * 2 ^ 32 ↔ 15625 ∣ m := by
  have hcoprime : Nat.Coprime 15625 (2 ^ 32) := Nat.Coprime.pow_right 32 (by decide)
  constructor
  · intro h
    exact hcoprime.dvd_of_dvd_mul_right ((by norm_num : 15625 ∣ 1000000).trans h)
  · intro h
    exact (by norm_num : 1000000 ∣ 15625 * 2 ^ 32).trans (Nat.mul_dvd_mul_right h _)

/-- The quotient by a million is rounded, but not over the next multiple of 2 ^ -32. -/
theorem floor_double_div {m : ℕ} (hm : m < 1000000) :
    ⌊double (double (m / 1000000) * (65536 * 65536))⌋ = (m * 2 ^ 32 / 1000000 : ℕ) := by
  have h32 : (65536 * 65536 : ℚ) = 2 ^ 32 := by norm_num
  rw [h32, double_mul_two_pow, Int.floor_eq_iff]
  by_cases hdvd : 15625 ∣ m
  · -- a multiple of a 64th of a second
    obtain ⟨j, rfl⟩ := hdvd
    have hexact : double (((15625 * j : ℕ) : ℚ) / 1000000) = j * 2 ^ (-6 : ℤ) := by
      have h := double_natCast_mul (n := j) (by omega) (e := -6) (by omega)
      rw [← h]
      congr 1
      push_cast
      norm_num
      ring
    have hdiv : 15625 * j * 2 ^ 32 / 1000000 = j * 2 ^ 26 := by omega
    rw [hexact, hdiv]
    push_cast
    norm_num
    constructor <;> linarith
  · have herr := abs_double_sub_le (x := (m : ℚ) / 1000000) 0 (by
      have hq : (m : ℚ) < 1000000 := by exact_mod_cast hm
      rw [pow_zero, abs_of_nonneg (by positivity), div_lt_one (by norm_num)]
      exact hq)
    -- a fraction that is not an integer is away from the integers
    have hsplit := Nat.div_add_mod (m * 2 ^ 32) 1000000
    obtain ⟨hlow, hhigh⟩ := mod_bounds (a := m * 2 ^ 32) (b := 1000000) (d := 64) (by norm_num)
      (Dvd.dvd.mul_left (by norm_num) m) (by norm_num) (mt million_dvd_iff.1 hdvd)
    generalize m * 2 ^ 32 / 1000000 = quot at *
    generalize m * 2 ^ 32 % 1000000 = rest at *
    have hsplit' : (1000000 : ℚ) * quot + rest = m * 2 ^ 32 := by
      have := congrArg (Nat.cast (R := ℚ)) hsplit
      push_cast at this
      exact this
    have hlow' : (64 : ℚ) ≤ rest := by exact_mod_cast hlow
    have hhigh' : (rest : ℚ) + 64 ≤ 1000000 := by exact_mod_cast hhigh
    obtain ⟨hl, hu⟩ := abs_le.1 herr
    norm_num at hl hu hsplit' ⊢
    constructor <;> linarith

theorem Normalized.fraction_lt (ht : t.Normalized) :
    t.microsec.toNat * 2 ^ 32 / 1000000 < 2 ^ 32 := by
  unfold Normalized at ht
  omega

/-- The seconds wrap around at the end of the era. -/
theorem toNat_sec_add_offset (t : RTPTime) :
    (t.sec + ntpTimeOffset).toNat = (t.sec.toNat + 2208988800) % 2 ^ 32 := UInt32.toNat_add ..

/-- **The conversion to an NTP timestamp is exact.** -/
theorem getNTPTime_eq (ht : t.Normalized) : t.getNTPTime =
    some ⟨t.sec + ntpTimeOffset, UInt32.ofNat (t.microsec.toNat * 2 ^ 32 / 1000000)⟩ := by
  rw [getNTPTime, toUInt32_of_floor ht.fraction_lt (floor_double_div ht)]
  rfl

/-- **The conversion from an NTP timestamp is exact.** -/
theorem ofNTPTime_eq (ntptime : RTPNTPTime) : ofNTPTime ntptime =
    some (if ntptime.msw < ntpTimeOffset then ⟨0, 0⟩
      else ⟨ntptime.msw - ntpTimeOffset,
        UInt32.ofNat (ntptime.lsw.toNat * 1000000 / 2 ^ 32)⟩) := by
  have hlsw : ntptime.lsw.toNat < 2 ^ 32 := ntptime.lsw.toNat_lt
  have hfraction : double ((ntptime.lsw.toNat : ℚ) / (65536 * 65536)) =
      ntptime.lsw.toNat * 2 ^ (-32 : ℤ) := by
    have h := double_natCast_mul (n := ntptime.lsw.toNat) (by omega) (e := -32) (by omega)
    rw [← h]
    congr 1
    norm_num
    ring
  have hmicro : double (ntptime.lsw.toNat * 2 ^ (-32 : ℤ) * 1000000) =
      (ntptime.lsw.toNat * 1000000 : ℕ) / (2 ^ 32 : ℕ) := by
    have h := double_natCast_mul (n := ntptime.lsw.toNat * 1000000) (by omega) (e := -32) (by omega)
    have hswap : ((ntptime.lsw.toNat * 1000000 : ℕ) : ℚ) * 2 ^ (-32 : ℤ) =
        ntptime.lsw.toNat * 2 ^ (-32 : ℤ) * 1000000 := by push_cast; ring
    rw [hswap] at h
    rw [h]
    push_cast
    norm_num
    ring
  have hfloor := Rat.floor_natCast_div_natCast (ntptime.lsw.toNat * 1000000) (2 ^ 32)
  rw [ofNTPTime]
  split_ifs with hera
  · rfl
  · simp only [hfraction, hmicro]
    rw [toUInt32_of_floor (n := ntptime.lsw.toNat * 1000000 / 2 ^ 32) (by omega)
      (by rw [hfloor]; push_cast; rfl)]
    rfl

theorem value_getNTPTime (ht : t.Normalized) (hera : t.sec.toNat + 2208988800 < 2 ^ 32)
    {n : RTPNTPTime} (hn : t.getNTPTime = some n) :
    n.value = t.value * 2 ^ 32 / 1000000 + 2208988800 * 2 ^ 32 := by
  have hmsw : (t.sec + ntpTimeOffset).toNat = t.sec.toNat + 2208988800 := by
    rw [toNat_sec_add_offset, Nat.mod_eq_of_lt hera]
  have hquot : t.value * 2 ^ 32 / 1000000 =
      t.microsec.toNat * 2 ^ 32 / 1000000 + t.sec.toNat * 2 ^ 32 := by
    have hswap : t.value * 2 ^ 32 =
        t.microsec.toNat * 2 ^ 32 + 1000000 * (t.sec.toNat * 2 ^ 32) := by
      unfold value
      ring
    rw [hswap, Nat.add_mul_div_left _ _ (by norm_num)]
  rw [getNTPTime_eq ht] at hn
  rw [← Option.some.inj hn, RTPNTPTime.value]
  dsimp only
  rw [hmsw, UInt32.toNat_ofNat_of_lt' ht.fraction_lt, hquot, add_mul, add_right_comm,
    add_comm (t.sec.toNat * _)]

/-- **The NTP timestamps of an era are in the order of the times.** -/
theorem getNTPTime_lt_iff {t' : RTPTime} (ht : t.Normalized) (ht' : t'.Normalized)
    (hera : t.sec.toNat + 2208988800 < 2 ^ 32) (hera' : t'.sec.toNat + 2208988800 < 2 ^ 32)
    {n n' : RTPNTPTime} (hn : t.getNTPTime = some n) (hn' : t'.getNTPTime = some n') :
    n.value < n'.value ↔ t.lt t' = true := by
  have hmono := strictMono_mul_div (d := 1000000) (b := 2 ^ 32) (by norm_num) (by norm_num)
  rw [value_getNTPTime ht hera hn, value_getNTPTime ht' hera' hn', Nat.add_lt_add_iff_right,
    lt_iff ht ht']
  exact hmono.lt_iff_lt

/-- A microsecond is enough to tell them apart. -/
theorem getNTPTime_lt_iff_epoch : (⟨0, 0⟩ : RTPTime).Normalized ∧ (⟨0, 1⟩ : RTPTime).Normalized ∧
    ∃ n n', getNTPTime ⟨0, 0⟩ = some n ∧ getNTPTime ⟨0, 1⟩ = some n' ∧
      (n.value < n'.value ↔ lt ⟨0, 0⟩ ⟨0, 1⟩ = true) := by
  have ht : (⟨0, 0⟩ : RTPTime).Normalized := by decide
  have ht' : (⟨0, 1⟩ : RTPTime).Normalized := by decide
  have hn := getNTPTime_eq ht
  have hn' := getNTPTime_eq ht'
  exact ⟨ht, ht', _, _, hn, hn', getNTPTime_lt_iff ht ht' (by decide) (by decide) hn hn'⟩

/-! ## There and back -/

/-- The microseconds that are left after a conversion and back. -/
def afterNTP (m : ℕ) : ℕ := if 15625 ∣ m then m else m - 1

/-- To an NTP timestamp and back, `k` times. -/
def throughNTP : ℕ → RTPTime → Option RTPTime
  | 0, t => some t
  | k + 1, t => (t.getNTPTime >>= ofNTPTime) >>= throughNTP k

theorem ofNTPTime_getNTPTime (ht : t.Normalized) : (t.getNTPTime >>= ofNTPTime) =
    some (if t.sec.toNat + 2208988800 < 2 ^ 32
      then ⟨t.sec, UInt32.ofNat (afterNTP t.microsec.toNat)⟩ else ⟨0, 0⟩) := by
  have hsec := t.sec.toNat_lt
  have hback := mul_div_mul_div (m := t.microsec.toNat) (a := 1000000) (b := 2 ^ 32) (by norm_num)
    (by norm_num)
  simp only [million_dvd_iff] at hback
  have hera : t.sec + ntpTimeOffset < ntpTimeOffset ↔ ¬t.sec.toNat + 2208988800 < 2 ^ 32 := by
    rw [UInt32.lt_iff_toNat_lt, toNat_sec_add_offset]
    simp only [ntpTimeOffset, UInt32.toNat_ofNat]
    omega
  rw [getNTPTime_eq ht, Option.bind_eq_bind, Option.bind_some, ofNTPTime_eq]
  dsimp only
  rw [UInt32.toNat_ofNat_of_lt' ht.fraction_lt, hback, UInt32.add_sub_cancel, ← afterNTP]
  by_cases h : t.sec.toNat + 2208988800 < 2 ^ 32
  · rw [if_neg (fun h' => hera.1 h' h), if_pos h]
  · rw [if_pos (hera.2 h), if_neg h]

theorem afterNTP_le (m : ℕ) : afterNTP m ≤ m := by
  unfold afterNTP
  split_ifs <;> omega

/-- **A time loses a microsecond on every way there and back, down to a 64th of a second**, or
    everything if its seconds do not fit into the era. -/
theorem ntp_roundTrips (ht : t.Normalized) (k : ℕ) : throughNTP k t =
    some (if t.sec.toNat + 2208988800 < 2 ^ 32
      then ⟨t.sec, UInt32.ofNat (max (t.microsec.toNat - k) (t.microsec.toNat / 15625 * 15625))⟩
      else if k = 0 then t else ⟨0, 0⟩) := by
  induction k generalizing t with
  | zero =>
    have hmax : max (t.microsec.toNat - 0) (t.microsec.toNat / 15625 * 15625) =
        t.microsec.toNat := by omega
    rw [hmax, UInt32.ofNat_toNat, if_pos rfl, ite_self]
    rfl
  | succ k ih =>
    rw [throughNTP, ofNTPTime_getNTPTime ht, Option.bind_eq_bind, Option.bind_some]
    by_cases h : t.sec.toNat + 2208988800 < 2 ^ 32
    · have hle := afterNTP_le t.microsec.toNat
      unfold Normalized at ht
      have hafter : (UInt32.ofNat (afterNTP t.microsec.toNat)).toNat =
          afterNTP t.microsec.toNat :=
        UInt32.toNat_ofNat_of_lt' (lt_of_le_of_lt hle (ht.trans (by decide)))
      rw [if_pos h, ih (by unfold Normalized; dsimp only; omega), if_pos h, if_pos h]
      dsimp only
      rw [hafter]
      have hmax : max (afterNTP t.microsec.toNat - k)
          (afterNTP t.microsec.toNat / 15625 * 15625) =
          max (t.microsec.toNat - (k + 1)) (t.microsec.toNat / 15625 * 15625) := by
        unfold afterNTP
        split_ifs <;> omega
      rw [hmax]
    · have hstay : max (0 - k) (0 / 15625 * 15625) = 0 := by omega
      rw [if_neg h, ih (by decide), if_neg h, if_neg k.succ_ne_zero]
      rw [if_pos (by decide)]
      simp only [UInt32.toNat_zero, hstay]
      rfl

/-- Half a second past the epoch and a microsecond: the microsecond is lost, the half stays. -/
theorem ntp_roundTrips_half : (⟨0, 500001⟩ : RTPTime).Normalized ∧
    throughNTP 3 ⟨0, 500001⟩ = some ⟨0, 500000⟩ := by
  have ht : (⟨0, 500001⟩ : RTPTime).Normalized := by decide
  exact ⟨ht, (ntp_roundTrips ht 3).trans (by decide)⟩

/-! ## Seconds as a `double` -/

/-- `t` is the time of `x` seconds, what is below a microsecond cut off.  The error is that of
    the product with a million. -/
structure CutsOff (t : RTPTime) (x : ℚ) : Prop where
  normalized : t.Normalized
  sec : (t.sec.toNat : ℤ) = ⌊x⌋
  le : (t.value : ℚ) ≤ x * 1000000 + 1 / 2 ^ 34
  lt : x * 1000000 < t.value + 1 + 1 / 2 ^ 34

/-- The microseconds of what is behind the point. -/
theorem exists_microseconds {f : ℚ} (hnum : binary64.Number f) (h0 : 0 ≤ f) (h1 : f < 1) :
    ∃ micro : ℕ, micro < 1000000 ∧ ⌊double (f * 1000000)⌋ = micro ∧
      (micro : ℚ) ≤ f * 1000000 + 1 / 2 ^ 34 ∧ f * 1000000 < micro + 1 + 1 / 2 ^ 34 := by
  have hprod0 : 0 ≤ double (f * 1000000) := FloatFormat.round_nonneg (by positivity)
  obtain ⟨micro, hmicro⟩ := Int.eq_ofNat_of_zero_le (Int.floor_nonneg.2 hprod0)
  have hle := Int.floor_le (double (f * 1000000))
  have hgt := Int.lt_floor_add_one (double (f * 1000000))
  rw [hmicro, Int.cast_natCast] at hle hgt
  have herr := abs_double_sub_le (x := f * 1000000) 20 (by
    rw [abs_of_nonneg (by positivity)]
    linarith)
  obtain ⟨hlow, hhigh⟩ := abs_le.1 herr
  -- the product does not reach a million
  have hbelow : f ≤ 1 - 1 / 2 ^ 53 := by
    have h := hnum.le_one_sub h1
    rwa [zpow_neg, zpow_natCast, ← one_div] at h
  have hlt : (micro : ℚ) < 1000000 := by
    norm_num at hbelow hhigh
    linarith
  refine ⟨micro, by exact_mod_cast hlt, hmicro, ?_, ?_⟩
  · norm_num at hhigh ⊢
    linarith
  · norm_num at hlow ⊢
    linarith

theorem ofDouble_of_nonneg {x : ℚ} (hnum : binary64.Number x) (h0 : 0 ≤ x) (hx : x < 2 ^ 32) :
    ∃ t, ofDouble x = some t ∧ CutsOff t x := by
  obtain ⟨sec, hsec⟩ := Int.eq_ofNat_of_zero_le (Int.floor_nonneg.2 h0)
  have hsec32 : sec < 2 ^ 32 := by
    have hlt : ⌊x⌋ < 2 ^ 32 := Int.floor_lt.2 (by exact_mod_cast hx)
    omega
  have hsecNat : (UInt32.ofNat sec).toNat = sec := UInt32.toNat_ofNat_of_lt' hsec32
  have hfloor := Int.floor_le x
  have hfloor' := Int.lt_floor_add_one x
  have hfraction := hnum.sub_floor h0
  rw [hsec, Int.cast_natCast] at hfloor hfloor' hfraction
  -- what is behind the point is exact
  have hexact : double (x - sec) = x - sec := FloatFormat.round_eq_self hfraction
  obtain ⟨micro, hlt, hmicro, hle, hgt⟩ :=
    exists_microseconds hfraction (by linarith) (by linarith)
  have hmicroNat : (UInt32.ofNat micro).toNat = micro :=
    UInt32.toNat_ofNat_of_lt' (hlt.trans (by decide))
  refine ⟨⟨UInt32.ofNat sec, UInt32.ofNat micro⟩, ?_, ?_, ?_, ?_, ?_⟩
  · rw [ofDouble, toUInt32_of_floor hsec32 hsec]
    simp only [Option.bind_eq_bind, Option.bind_some, hsecNat, hexact]
    rw [toUInt32_of_floor (by omega) hmicro]
    rfl
  · unfold Normalized
    rwa [hmicroNat]
  · rw [hsecNat, hsec]
  · simp only [value, hsecNat, hmicroNat]
    push_cast
    linarith
  · simp only [value, hsecNat, hmicroNat]
    push_cast
    linarith

/-- A second below 0 is a million microseconds, up to the relative error. -/
theorem double_le_of_le {x : ℚ} (hx : x ≤ -1) : double (x * 1000000) ≤ -1 := by
  have habs : |x * 1000000| = -(x * 1000000) := abs_of_nonpos (by linarith)
  have hlow : (2 : ℚ) ^ (binary64.emin + binary64.digits) ≤ |x * 1000000| := by
    calc (2 : ℚ) ^ (binary64.emin + binary64.digits) ≤ 2 ^ (0 : ℤ) :=
          FloatFormat.two_zpow_le (by decide)
      _ = 1 := zpow_zero 2
      _ ≤ |x * 1000000| := by rw [habs]; linarith
  have herr : double (x * 1000000) - x * 1000000 ≤ |x * 1000000| / 2 ^ 53 :=
    (abs_le.1 (FloatFormat.abs_round_sub_le_mul hlow)).2
  rw [habs] at herr
  norm_num at herr
  linarith

/-- What is negative, but not by a microsecond, is cut off, too. -/
theorem ofDouble_of_neg {x : ℚ} (hnum : binary64.Number x) (hx : x < 0) :
    ofDouble x = if -1 < double (x * 1000000) then some ⟨0, 0⟩ else none := by
  have hprod : double (x * 1000000) ≤ 0 := FloatFormat.round_nonpos (by linarith)
  rw [ofDouble, toUInt32_of_nonpos hx.le]
  by_cases hone : -1 < x
  · have hexact : double (x - (0 : UInt32).toNat) = x := by
      rw [UInt32.toNat_zero, Nat.cast_zero, sub_zero]
      exact FloatFormat.round_eq_self hnum
    rw [if_pos hone]
    simp only [Option.bind_eq_bind, Option.bind_some, hexact]
    rw [toUInt32_of_nonpos hprod]
    split_ifs <;> rfl
  · have hle := double_le_of_le (not_lt.1 hone)
    rw [if_neg hone, if_neg (not_lt.2 hle)]
    rfl

theorem ofDouble_of_le {x : ℚ} (hx : 2 ^ 32 ≤ x) : ofDouble x = none := by
  have hfloor : 2 ^ 32 ≤ ⌊x⌋ := Int.le_floor.2 (by exact_mod_cast hx)
  have hnone : toUInt32 x = none := by
    rw [toUInt32, if_pos (le_trans (by norm_num) hx)]
    exact if_neg fun h => absurd h.2 (not_lt.2 hfloor)
  rw [ofDouble, hnone]
  rfl

/-- **A `double` gives a normalized time**, if its microseconds do not round to -1 or less, and
    its seconds fit. -/
theorem ofDouble_spec {x : ℚ} (hnum : binary64.Number x) :
    ((ofDouble x).isSome ↔ -1 < double (x * 1000000) ∧ x < 2 ^ 32) ∧
      ∀ t, ofDouble x = some t → CutsOff t (max x 0) := by
  rcases lt_or_ge x 0 with hneg | h0
  · have hlt : x < 2 ^ 32 := hneg.trans (by norm_num)
    rw [ofDouble_of_neg hnum hneg, max_eq_right hneg.le]
    constructor
    · split_ifs with h <;> simp [h, hlt]
    · intro t ht
      split_ifs at ht
      rw [← Option.some.inj ht]
      exact ⟨by decide, by norm_num, by norm_num [value], by norm_num [value]⟩
  · rw [max_eq_left h0]
    have hprod : -1 < double (x * 1000000) :=
      lt_of_lt_of_le (by norm_num) (FloatFormat.round_nonneg (by positivity))
    rcases lt_or_ge x (2 ^ 32) with hlt | hge
    · obtain ⟨t, ht, hcuts⟩ := ofDouble_of_nonneg hnum h0 hlt
      rw [ht]
      refine ⟨by simp only [Option.isSome_some, hprod, hlt, and_self], ?_⟩
      intro t' ht'
      rwa [← Option.some.inj ht']
    · rw [ofDouble_of_le hge]
      refine ⟨by simp [hge], ?_⟩
      intro t ht
      cases ht

/-- A second and a half. -/
theorem ofDouble_spec_half : binary64.Number (3 / 2) ∧
    ∃ t, ofDouble (3 / 2) = some t ∧ CutsOff t (3 / 2) := by
  have hnum : binary64.Number (3 / 2) := ⟨3, -1, by decide, by decide, by norm_num⟩
  obtain ⟨hsome, hcuts⟩ := ofDouble_spec hnum
  obtain ⟨t, ht⟩ := Option.isSome_iff_exists.1 (hsome.2 ⟨by decide +kernel, by norm_num⟩)
  have h := hcuts t ht
  rw [max_eq_left (by norm_num)] at h
  exact ⟨hnum, t, ht, h⟩

-- `delay` in `recvPackets`
example : ofDouble 10 = some ⟨10, 0⟩ := by decide +kernel

theorem sec_natCast_number (t : RTPTime) : binary64.Number (t.sec.toNat : ℚ) := by
  have h := FloatFormat.number_of_nat (F := binary64) (n := t.sec.toNat)
    (t.sec.toNat_lt.trans (by decide)) (e := 0) (by decide)
  rwa [zpow_zero, mul_one] at h

/-- `GetDouble` is off by less than a quarter of a microsecond. -/
theorem abs_getDouble_sub_le (ht : t.Normalized) :
    |t.getDouble - t.value / 1000000| ≤ 1 / 2 ^ 22 + 1 / 2 ^ 54 := by
  have hmicro : (t.microsec.toNat : ℚ) + 1 ≤ 1000000 := by exact_mod_cast ht
  have hmicro0 : (0 : ℚ) ≤ t.microsec.toNat := Nat.cast_nonneg _
  have hsec : (t.sec.toNat : ℚ) + 1 ≤ 2 ^ 32 := by exact_mod_cast t.sec.toNat_lt
  have hsec0 : (0 : ℚ) ≤ t.sec.toNat := Nat.cast_nonneg _
  have hquot := abs_double_sub_le (x := (t.microsec.toNat : ℚ) / 1000000) 0 (by
    rw [pow_zero, abs_of_nonneg (by positivity), div_lt_one (by norm_num)]
    linarith)
  have hquot0 : 0 ≤ double ((t.microsec.toNat : ℚ) / 1000000) :=
    FloatFormat.round_nonneg (by positivity)
  have hquot1 : double ((t.microsec.toNat : ℚ) / 1000000) < 1 := by
    have hhigh := (abs_le.1 hquot).2
    norm_num at hhigh
    linarith
  have hsum := abs_double_sub_le
    (x := (t.sec.toNat : ℚ) + double ((t.microsec.toNat : ℚ) / 1000000)) 32 (by
      rw [abs_of_nonneg (by positivity)]
      linarith)
  have hvalue : (t.value : ℚ) / 1000000 = t.sec.toNat + t.microsec.toNat / 1000000 := by
    simp only [value]
    push_cast
    ring
  rw [abs_le] at hquot hsum ⊢
  rw [getDouble, hvalue]
  norm_num at hquot hsum ⊢
  constructor <;> linarith

/-- Whole seconds are exact. -/
theorem getDouble_of_microsec_eq_zero (h : t.microsec = 0) : t.getDouble = t.sec.toNat := by
  have hzero : double 0 = 0 := FloatFormat.round_zero
  rw [getDouble, h, UInt32.toNat_zero, Nat.cast_zero, zero_div, hzero, add_zero]
  exact FloatFormat.round_eq_self t.sec_natCast_number

/-- **As a `double` and back**: a time stays, or loses one microsecond. -/
theorem ofDouble_getDouble (ht : t.Normalized) : ofDouble t.getDouble = some t ∨
    t.microsec ≠ 0 ∧ ofDouble t.getDouble = some ⟨t.sec, t.microsec - 1⟩ := by
  have herr := abs_le.1 (abs_getDouble_sub_le ht)
  have hvalue : (t.value : ℚ) + 1 ≤ 2 ^ 32 * 1000000 := by exact_mod_cast ht.value_lt
  have h0 : 0 ≤ t.getDouble := by
    refine FloatFormat.round_nonneg (add_nonneg (Nat.cast_nonneg _) ?_)
    exact FloatFormat.round_nonneg (by positivity)
  have hlt : t.getDouble < 2 ^ 32 := by
    norm_num at herr hvalue ⊢
    linarith
  have hnum : binary64.Number t.getDouble := FloatFormat.number_round _
  obtain ⟨r, hr, hnorm, hsec, hle, hgt⟩ := ofDouble_of_nonneg hnum h0 hlt
  -- the errors add up to less than one
  have hle' : r.value ≤ t.value := by
    have : (r.value : ℚ) < t.value + 1 := by
      norm_num at herr hle ⊢
      linarith
    exact Nat.lt_succ_iff.1 (by exact_mod_cast this)
  have hge' : t.value ≤ r.value + 1 := by
    have : (t.value : ℚ) < r.value + 2 := by
      norm_num at herr hgt ⊢
      linarith
    have : t.value < r.value + 2 := by exact_mod_cast this
    omega
  rw [hr]
  rcases Nat.lt_or_ge r.value t.value with hless | hsame
  · have hmicro : t.microsec ≠ 0 := by
      intro h
      have hfloor : (r.sec.toNat : ℤ) = t.sec.toNat := by
        rw [hsec, getDouble_of_microsec_eq_zero h, Int.floor_natCast]
      unfold value at hless
      rw [h, UInt32.toNat_zero] at hless
      omega
    refine Or.inr ⟨hmicro, ?_⟩
    have hone : (1 : UInt32) ≤ t.microsec := by
      rw [UInt32.le_iff_toNat_le]
      exact Nat.pos_of_ne_zero fun h => hmicro (UInt32.toNat_inj.1 h)
    have hpred : (t.microsec - 1).toNat = t.microsec.toNat - 1 := UInt32.toNat_sub_of_le _ _ hone
    have hone' : 1 ≤ t.microsec.toNat := UInt32.le_iff_toNat_le.1 hone
    unfold Normalized at ht
    rw [value_inj hnorm (t := ⟨t.sec, t.microsec - 1⟩)]
    · unfold Normalized
      dsimp only
      omega
    · unfold value at hless hge' ⊢
      dsimp only
      omega
  · rw [value_inj hnorm ht (le_antisymm hle' hsame)]
    exact Or.inl rfl

theorem ofDouble_getDouble_early : (⟨0, 249⟩ : RTPTime).Normalized ∧
    (ofDouble (getDouble ⟨0, 249⟩) = some ⟨0, 249⟩ ∨
      (249 : UInt32) ≠ 0 ∧ ofDouble (getDouble ⟨0, 249⟩) = some ⟨0, 249 - 1⟩) := by
  have ht : (⟨0, 249⟩ : RTPTime).Normalized := by decide
  exact ⟨ht, ofDouble_getDouble ht⟩

-- both happen
example : ofDouble (getDouble ⟨0, 249⟩) = some ⟨0, 248⟩ := by decide +kernel

example : ofDouble (getDouble ⟨0, 250⟩) = some ⟨0, 250⟩ := by decide +kernel

end RTPTime

end RayionClient
