/-
  rtptimeutilities.h — the class `RTPTime`.

  A time is a number of seconds and a number of microseconds below a million
  (`Normalized`), so it stands for a number of microseconds (`value`).  `operator+=`
  and `operator-=` are addition and subtraction of these modulo 2 ^ 32 seconds
  (`value_add`, `value_sub`), over whole sequences of assignments (`assign_exact`);
  the comparisons compare them (`lt_iff`, `le_iff`, `gt_iff`, `ge_iff`).
-/
import RayionClient.RTPHandler

namespace RayionClient

namespace RTPTime

/-- `operator+=`. -/
def add (a t : RTPTime) : RTPTime :=
  let sec := a.sec + t.sec
  let microsec := a.microsec + t.microsec
  if microsec ≥ 1000000 then ⟨sec + 1, microsec - 1000000⟩ else ⟨sec, microsec⟩

/-- `operator<`. -/
def lt (a t : RTPTime) : Bool :=
  if a.sec < t.sec then true
  else if a.sec > t.sec then false
  else if a.microsec < t.microsec then true
  else false

/-- `operator<=`. -/
def le (a t : RTPTime) : Bool :=
  if a.sec < t.sec then true
  else if a.sec > t.sec then false
  else if a.microsec ≤ t.microsec then true
  else false

/-- `operator>`. -/
def gt (a t : RTPTime) : Bool :=
  if a.sec > t.sec then true
  else if a.sec < t.sec then false
  else if a.microsec > t.microsec then true
  else false

/-- `operator>=`. -/
def ge (a t : RTPTime) : Bool :=
  if a.sec > t.sec then true
  else if a.sec < t.sec then false
  else if a.microsec ≥ t.microsec then true
  else false

/-! ## Microseconds -/

/-- Less than a million microseconds. -/
def Normalized (t : RTPTime) : Prop := t.microsec.toNat < 1000000

/-- This can be computed. -/
instance (t : RTPTime) : Decidable t.Normalized :=
  inferInstanceAs (Decidable (t.microsec.toNat < 1000000))

/-- The time in microseconds. -/
def value (t : RTPTime) : ℕ := t.sec.toNat * 1000000 + t.microsec.toNat

/-- 2 ^ 32 seconds. -/
def span : ℕ := 2 ^ 32 * 1000000

/-- The time of a number of microseconds, up to multiples of `span`. -/
def ofMicroseconds (n : ℕ) : RTPTime := ⟨UInt32.ofNat (n / 1000000), UInt32.ofNat (n % 1000000)⟩

variable {a t : RTPTime}

theorem Normalized.value_lt (ha : a.Normalized) : a.value < span := by
  have hsec := a.sec.toNat_lt
  unfold Normalized at ha
  unfold value span
  omega

theorem value_inj (ha : a.Normalized) (ht : t.Normalized) (h : a.value = t.value) : a = t := by
  unfold Normalized at ha ht
  unfold value at h
  obtain ⟨sec, microsec⟩ := a
  obtain ⟨sec', microsec'⟩ := t
  obtain rfl : sec = sec' := UInt32.toNat_inj.1 (by dsimp only at *; omega)
  obtain rfl : microsec = microsec' := UInt32.toNat_inj.1 (by dsimp only at *; omega)
  rfl

theorem ofMicroseconds_spec (n : ℕ) :
    (ofMicroseconds n).Normalized ∧ (ofMicroseconds n).value = n % span := by
  have hmicro : n % 1000000 % 2 ^ 32 = n % 1000000 := Nat.mod_eq_of_lt (by omega)
  rw [Normalized, value, ofMicroseconds, UInt32.toNat_ofNat', UInt32.toNat_ofNat', hmicro, span]
  omega

theorem value_add (ha : a.Normalized) (ht : t.Normalized) :
    (a.add t).Normalized ∧ ((a.add t).value : ℤ) = (a.value + t.value) % span := by
  have hs := a.sec.toNat_lt
  have hs' := t.sec.toNat_lt
  have hsum : (a.microsec + t.microsec).toNat = a.microsec.toNat + t.microsec.toNat := by
    unfold Normalized at ha ht
    rw [UInt32.toNat_add, Nat.mod_eq_of_lt (by omega)]
  have hmillion : (1000000 : UInt32).toNat = 1000000 := rfl
  have hone : (1 : UInt32).toNat = 1 := rfl
  unfold Normalized at ha ht
  rw [add]
  split_ifs with hc
  · rw [ge_iff_le, UInt32.le_iff_toNat_le, hsum, hmillion] at hc
    have hmicro : (a.microsec + t.microsec - 1000000).toNat =
        a.microsec.toNat + t.microsec.toNat - 1000000 := by
      rw [UInt32.toNat_sub_of_le _ _ (UInt32.le_iff_toNat_le.2 (by omega)), hsum, hmillion]
    show (a.microsec + t.microsec - 1000000).toNat < 1000000 ∧
      (((a.sec + t.sec + 1).toNat * 1000000 +
        (a.microsec + t.microsec - 1000000).toNat : ℕ) : ℤ) = _
    rw [hmicro, UInt32.toNat_add, UInt32.toNat_add, hone, value, value, span]
    omega
  · rw [ge_iff_le, UInt32.le_iff_toNat_le, hsum, hmillion] at hc
    show (a.microsec + t.microsec).toNat < 1000000 ∧
      (((a.sec + t.sec).toNat * 1000000 + (a.microsec + t.microsec).toNat : ℕ) : ℤ) = _
    rw [hsum, UInt32.toNat_add, value, value, span]
    omega

theorem natCast_sub_mod {n x y : ℕ} (h : y ≤ n) :
    (((n - y + x) % n : ℕ) : ℤ) = ((x : ℤ) - y) % n := by
  have hsum : ((n - y + x : ℕ) : ℤ) = (x - y) + n := by omega
  rw [Int.natCast_emod, hsum, Int.add_emod_right]

theorem toNat_sub_int (x y : UInt32) :
    ((x - y).toNat : ℤ) = ((x.toNat : ℤ) - y.toNat) % 4294967296 := by
  rw [UInt32.toNat_sub]; exact natCast_sub_mod (Nat.le_of_lt y.toNat_lt)

/-- Seconds and microseconds subtracted on their own. -/
theorem diff_of_le {d s s' m m' : ℕ} (hd : (d : ℤ) = ((s : ℤ) - s') % 4294967296) (hm : m < 1000000)
    (hle : m' ≤ m) : ((d * 1000000 + (m - m') : ℕ) : ℤ) =
      (((s * 1000000 + m : ℕ) : ℤ) - (s' * 1000000 + m' : ℕ)) % 4294967296000000 := by
  omega

/-- The same with a borrow. -/
theorem diff_of_gt {d d' s s' m m' : ℕ} (hd : (d : ℤ) = ((s : ℤ) - s') % 4294967296)
    (hd' : (d' : ℤ) = ((d : ℤ) - 1) % 4294967296) (hm : m' < 1000000) (hlt : m < m') :
    ((d' * 1000000 + (m + 1000000 - m') : ℕ) : ℤ) =
      (((s * 1000000 + m : ℕ) : ℤ) - (s' * 1000000 + m' : ℕ)) % 4294967296000000 := by
  omega

theorem value_sub (ha : a.Normalized) (ht : t.Normalized) :
    (a.sub t).Normalized ∧ ((a.sub t).value : ℤ) = (a.value - t.value) % span := by
  have hsec := toNat_sub_int a.sec t.sec
  have hborrow := toNat_sub_int (a.sec - t.sec) 1
  have hsum : (a.microsec + 1000000).toNat = a.microsec.toNat + 1000000 := by
    unfold Normalized at ha
    rw [UInt32.toNat_add]
    exact Nat.mod_eq_of_lt (Nat.lt_trans (Nat.add_lt_add_right ha _) (by decide))
  unfold Normalized at ha ht
  rw [sub]
  split_ifs with hc
  · rw [gt_iff_lt, UInt32.lt_iff_toNat_lt] at hc
    have hmicro : (a.microsec + 1000000 - t.microsec).toNat =
        a.microsec.toNat + 1000000 - t.microsec.toNat := by
      rw [UInt32.toNat_sub_of_le _ _ (UInt32.le_iff_toNat_le.2 (by omega)), hsum]
    refine ⟨?_, ?_⟩
    · show (a.microsec + 1000000 - t.microsec).toNat < 1000000
      omega
    · show (((a.sec - t.sec - 1).toNat * 1000000 +
        (a.microsec + 1000000 - t.microsec).toNat : ℕ) : ℤ) = _
      rw [hmicro]; exact diff_of_gt hsec hborrow ht hc
  · rw [gt_iff_lt, UInt32.lt_iff_toNat_lt, Nat.not_lt] at hc
    have hmicro : (a.microsec - t.microsec).toNat = a.microsec.toNat - t.microsec.toNat :=
      UInt32.toNat_sub_of_le _ _ (UInt32.le_iff_toNat_le.2 hc)
    refine ⟨?_, ?_⟩
    · show (a.microsec - t.microsec).toNat < 1000000
      omega
    · show (((a.sec - t.sec).toNat * 1000000 + (a.microsec - t.microsec).toNat : ℕ) : ℤ) = _
      rw [hmicro]; exact diff_of_le hsec ha hc

/-! ## Comparisons -/

theorem lt_iff (ha : a.Normalized) (ht : t.Normalized) : a.lt t = true ↔ a.value < t.value := by
  unfold Normalized at ha ht
  rw [lt, value, value]
  split_ifs with h₁ h₂ h₃ <;> simp only [UInt32.lt_iff_toNat_lt, gt_iff_lt] at * <;> simp <;> omega

theorem le_iff (ha : a.Normalized) (ht : t.Normalized) : a.le t = true ↔ a.value ≤ t.value := by
  unfold Normalized at ha ht
  rw [le, value, value]
  split_ifs with h₁ h₂ h₃ <;>
    simp only [UInt32.lt_iff_toNat_lt, UInt32.le_iff_toNat_le, gt_iff_lt] at * <;> simp <;> omega

theorem gt_iff (ha : a.Normalized) (ht : t.Normalized) : a.gt t = true ↔ t.value < a.value :=
  lt_iff ht ha

theorem ge_iff (ha : a.Normalized) (ht : t.Normalized) : a.ge t = true ↔ t.value ≤ a.value :=
  le_iff ht ha

/-! ## Sequences of assignments -/

/-- `a += t` or `a -= t`. -/
inductive Assign where
  | plus (t : RTPTime)
  | minus (t : RTPTime)

namespace Assign

/-- The argument. -/
def time : Assign → RTPTime
  | plus t | minus t => t

/-- One assignment. -/
def apply (a : RTPTime) : Assign → RTPTime
  | plus t => a.add t
  | minus t => a.sub t

/-- What is added, in microseconds. -/
def amount : Assign → ℤ
  | plus t => t.value
  | minus t => -t.value

theorem apply_spec {x : Assign} (ha : a.Normalized) (hx : x.time.Normalized) :
    (x.apply a).Normalized ∧ ((x.apply a).value : ℤ) = (a.value + x.amount) % span := by
  cases x with
  | plus t => exact value_add ha hx
  | minus t => exact value_sub ha hx

end Assign

/-- **A sequence of assignments is exact** modulo 2 ^ 32 seconds: it gives the time of the sum. -/
theorem assign_exact (ha : a.Normalized) : ∀ l : List Assign, (∀ x ∈ l, x.time.Normalized) →
    l.foldl Assign.apply a =
      ofMicroseconds ((a.value + (l.map Assign.amount).sum) % span).toNat := by
  intro l
  induction l generalizing a with
  | nil =>
    intro _
    have hspec := ofMicroseconds_spec a.value
    have hlt := ha.value_lt
    have hmod : ((a.value : ℤ) + 0) % span = a.value := by
      rw [Int.add_zero, Int.emod_eq_of_lt (by omega) (by omega)]
    rw [List.foldl_nil, List.map_nil, List.sum_nil, hmod, Int.toNat_natCast]
    exact value_inj ha hspec.1 (by rw [hspec.2, Nat.mod_eq_of_lt hlt])
  | cons x l ih =>
    intro hl
    obtain ⟨hnorm, hvalue⟩ := Assign.apply_spec ha (hl x List.mem_cons_self)
    rw [List.foldl_cons, ih hnorm fun y hy => hl y (List.mem_cons_of_mem _ hy), hvalue,
      Int.emod_add_emod, List.map_cons, List.sum_cons, Int.add_assoc]

/-- A minute less and a second more, with a borrow and a carry. -/
theorem assign_exact_clock : [Assign.minus ⟨60, 999999⟩, .plus ⟨1, 5⟩].foldl Assign.apply ⟨100, 3⟩ =
    ofMicroseconds ((100000003 + (-60999999 + (1000005 + 0)) : ℤ) % span).toNat :=
  assign_exact (a := ⟨100, 3⟩) (by decide) [.minus ⟨60, 999999⟩, .plus ⟨1, 5⟩] (by
    intro x hx
    rcases List.mem_pair.1 hx with rfl | rfl <;> decide)

end RTPTime

end RayionClient
