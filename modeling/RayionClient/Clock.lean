/-
  rtptimeutilities.h — `RTPTime::CurrentTime` on Windows, and the time that `recvPackets`
  measures.

  The performance counter is turned into microseconds without overflow
  (`calculateMicroseconds_toNat`).  The first call sets the static variables; from
  then on the wall clock of that call runs with the counter (`clock_exact`).  The
  variable `t` of `recvPackets` is what has passed on the counter since `starttime`
  (`RecvRun.elapsed`).
-/
import RayionClient.Sources
import RayionClient.TimeArithmetic

namespace RayionClient

open Base

/-! ## `CurrentTime` -/

/-- `FILETIME`: units of 100 ns since 1601, in two words. -/
structure FileTime where
  dwHighDateTime : UInt32
  dwLowDateTime : UInt32

/-- Microseconds from 1601 to 1970. -/
def epoch : UInt64 := 11644473600000000

/-- `CalculateMicroseconds`. -/
def calculateMicroseconds (performancecount performancefrequency : UInt64) : UInt64 :=
  let f := performancefrequency
  let a := performancecount
  let b := a / f
  let c := a % f
  b * 1000000 + c * 1000000 / f

/-- The static variables. -/
structure ClockStatics where
  inited : Bool
  microseconds : UInt64
  initmicroseconds : UInt64
  performancefrequency : UInt64
  deriving DecidableEq

/-- Before the first call, static variables are zero. -/
def ClockStatics.zero : ClockStatics := ⟨false, 0, 0, 0⟩

/-- `CurrentTime`, with what the operating system answers. -/
def currentTime (performancecount frequency : UInt64) (filetime : FileTime) (s : ClockStatics) :
    RTPTime × ClockStatics :=
  let s := if !s.inited then
      { inited := true
        performancefrequency := frequency
        microseconds :=
          (filetime.dwHighDateTime.toUInt64 <<< 32 + filetime.dwLowDateTime.toUInt64) / 10 - epoch
        initmicroseconds := calculateMicroseconds performancecount frequency }
    else s
  let emulate_microseconds := calculateMicroseconds performancecount s.performancefrequency
  let microdiff := emulate_microseconds - s.initmicroseconds
  (⟨((s.microseconds + microdiff) / 1000000).toUInt32,
    ((s.microseconds + microdiff) % 1000000).toUInt32⟩, s)

/-- The timers of the operating system: what a program gets that asks for the `n`-th time. -/
structure HostTimer where
  frequency : UInt64
  performancecount : ℕ → UInt64
  filetime : ℕ → FileTime
  frequency_ne : frequency ≠ 0
  frequency_le : frequency.toNat * 1000000 ≤ 2 ^ 64
  count_mono : ∀ m n, m ≤ n → performancecount m ≤ performancecount n

/-- The state of the clock: the static variables, and the number of calls so far. -/
structure Clock where
  statics : ClockStatics
  calls : ℕ

namespace Clock

/-- The clock before the first call. -/
def init : Clock := ⟨.zero, 0⟩

/-- One call of `CurrentTime`. -/
def tick (timer : HostTimer) (c : Clock) : RTPTime × Clock :=
  let (t, statics) :=
    RayionClient.currentTime (timer.performancecount c.calls) timer.frequency
      (timer.filetime c.calls) c.statics
  (t, ⟨statics, c.calls + 1⟩)

end Clock

/-! ## The microseconds of the counter -/

/-- Quotient and remainder scaled on their own. -/
theorem mul_div_split {a f m : ℕ} (hf : 0 < f) : a * m / f = a / f * m + a % f * m / f := by
  have h : a * m = a % f * m + f * (a / f * m) := by
    rw [← Nat.mul_assoc, ← Nat.add_mul, Nat.mod_add_div]
  rw [h, Nat.add_mul_div_left _ _ hf, Nat.add_comm]

/-- **No overflow on the way**: the result is the exact quotient, up to 2 ^ 64. -/
theorem calculateMicroseconds_toNat {a f : UInt64} (hf : f ≠ 0)
    (hle : f.toNat * 1000000 ≤ 2 ^ 64) :
    (calculateMicroseconds a f).toNat = a.toNat * 1000000 / f.toNat % 2 ^ 64 := by
  have hpos : 0 < f.toNat :=
    Nat.pos_of_ne_zero fun h => hf (UInt64.toNat_inj.1 (h.trans UInt64.toNat_zero.symm))
  have hmillion : (1000000 : UInt64).toNat = 1000000 := rfl
  have hrem : a.toNat % f.toNat < f.toNat := Nat.mod_lt _ hpos
  have hsmall : a.toNat % f.toNat * 1000000 < 2 ^ 64 :=
    Nat.lt_of_lt_of_le (Nat.mul_lt_mul_of_pos_right hrem (by omega)) hle
  rw [calculateMicroseconds, UInt64.toNat_add, UInt64.toNat_mul, UInt64.toNat_div, UInt64.toNat_div,
    UInt64.toNat_mul, UInt64.toNat_mod, hmillion, Nat.mod_eq_of_lt hsmall,
    mul_div_split (a := a.toNat) hpos, Nat.mod_add_mod]

namespace HostTimer
variable (timer : HostTimer)

/-- The counter at a call, in microseconds. -/
def micros (n : ℕ) : ℕ := (timer.performancecount n).toNat * 1000000 / timer.frequency.toNat

/-- The wall clock at the first call, in microseconds since 1970. -/
def start : UInt64 :=
  ((timer.filetime 0).dwHighDateTime.toUInt64 <<< 32 +
    (timer.filetime 0).dwLowDateTime.toUInt64) / 10 - epoch

/-- The time that a call returns. -/
def time (n : ℕ) : RTPTime :=
  .ofMicroseconds (timer.start.toNat + (timer.micros n - timer.micros 0))

/-- What the first call leaves behind. -/
def statics : ClockStatics where
  inited := true
  microseconds := timer.start
  initmicroseconds := calculateMicroseconds (timer.performancecount 0) timer.frequency
  performancefrequency := timer.frequency

/-- The clock fits 64 bits at a call. -/
def Fits (n : ℕ) : Prop := timer.start.toNat + (timer.micros n - timer.micros 0) < 2 ^ 64

variable {timer}

theorem micros_mono (timer : HostTimer) {m n : ℕ} (h : m ≤ n) :
    timer.micros m ≤ timer.micros n :=
  Nat.div_le_div_right (Nat.mul_le_mul_right _ (UInt64.le_iff_toNat_le.1 (timer.count_mono m n h)))

theorem Fits.mono {m n : ℕ} (h : m ≤ n) (hn : timer.Fits n) : timer.Fits m := by
  have hmono := micros_mono timer h
  unfold Fits at hn ⊢
  omega

theorem toUInt32_div (x : UInt64) :
    (⟨(x / 1000000).toUInt32, (x % 1000000).toUInt32⟩ : RTPTime) =
      .ofMicroseconds x.toNat := by
  have hmillion : (1000000 : UInt64).toNat = 1000000 := rfl
  have hsec : (x / 1000000).toUInt32 = UInt32.ofNat (x.toNat / 1000000) := by
    rw [← UInt32.toNat_inj, UInt64.toNat_toUInt32, UInt64.toNat_div, UInt32.toNat_ofNat', hmillion]
  have hmicrosec : (x % 1000000).toUInt32 = UInt32.ofNat (x.toNat % 1000000) := by
    rw [← UInt32.toNat_inj, UInt64.toNat_toUInt32, UInt64.toNat_mod, UInt32.toNat_ofNat', hmillion]
  rw [hsec, hmicrosec]; rfl

/-- The counter since the first call. -/
theorem microdiff {n : ℕ} (h : timer.Fits n) :
    timer.start + (calculateMicroseconds (timer.performancecount n) timer.frequency -
      calculateMicroseconds (timer.performancecount 0) timer.frequency) =
      UInt64.ofNat (timer.start.toNat + (timer.micros n - timer.micros 0)) := by
  have hmono := micros_mono timer (Nat.zero_le n)
  have hcalc : ∀ m, (calculateMicroseconds (timer.performancecount m) timer.frequency).toNat =
      timer.micros m % 2 ^ 64 :=
    fun m => calculateMicroseconds_toNat timer.frequency_ne timer.frequency_le
  have hlt : timer.start.toNat + (timer.micros n - timer.micros 0) < 2 ^ 64 := h
  rw [← UInt64.toNat_inj, UInt64.toNat_add, UInt64.toNat_sub, hcalc, hcalc, UInt64.toNat_ofNat']
  omega

/-- The clock after `n` calls. -/
def clock (timer : HostTimer) (n : ℕ) : Clock := ⟨if n = 0 then .zero else timer.statics, n⟩

/-- One call: the static variables are set by the first one only. -/
theorem tick_clock {n : ℕ} (h : timer.Fits n) :
    (timer.clock n).tick timer = (timer.time n, timer.clock (n + 1)) := by
  have htime : (⟨((timer.start + (calculateMicroseconds (timer.performancecount n) timer.frequency -
      calculateMicroseconds (timer.performancecount 0) timer.frequency)) / 1000000).toUInt32,
      ((timer.start + (calculateMicroseconds (timer.performancecount n) timer.frequency -
      calculateMicroseconds (timer.performancecount 0) timer.frequency)) % 1000000).toUInt32⟩ :
      RTPTime) = timer.time n := by
    rw [toUInt32_div, microdiff h, UInt64.toNat_ofNat_of_lt' h]; rfl
  rw [← htime]
  cases n <;> rfl

/-- The time between two calls. -/
theorem time_sub {i j : ℕ} (h : i ≤ j) : (timer.time j).sub (timer.time i) =
    .ofMicroseconds (timer.micros j - timer.micros i) := by
  obtain ⟨hi, hvi⟩ := RTPTime.ofMicroseconds_spec
    (timer.start.toNat + (timer.micros i - timer.micros 0))
  obtain ⟨hj, hvj⟩ := RTPTime.ofMicroseconds_spec
    (timer.start.toNat + (timer.micros j - timer.micros 0))
  obtain ⟨hd, hvd⟩ := RTPTime.ofMicroseconds_spec (timer.micros j - timer.micros i)
  obtain ⟨hn, hv⟩ := RTPTime.value_sub hj hi
  have h0 := micros_mono timer (Nat.zero_le i)
  have hij := micros_mono timer h
  have hle : timer.start.toNat + (timer.micros i - timer.micros 0) ≤
      timer.start.toNat + (timer.micros j - timer.micros 0) := by omega
  have hdiff : timer.start.toNat + (timer.micros j - timer.micros 0) -
      (timer.start.toNat + (timer.micros i - timer.micros 0)) =
        timer.micros j - timer.micros i := by
    omega
  refine RTPTime.value_inj hn hd ?_
  rw [hvi, hvj, Int.natCast_emod, Int.natCast_emod, ← Int.sub_emod, ← Int.ofNat_sub hle, hdiff,
    ← Int.natCast_emod] at hv
  rw [hvd]
  exact Int.ofNat_inj.1 hv

theorem time_le {i j : ℕ} (h : i ≤ j)
    (hspan : timer.start.toNat + (timer.micros j - timer.micros 0) < RTPTime.span) :
    (timer.time i).le (timer.time j) = true := by
  obtain ⟨hi, hvi⟩ := RTPTime.ofMicroseconds_spec
    (timer.start.toNat + (timer.micros i - timer.micros 0))
  obtain ⟨hj, hvj⟩ := RTPTime.ofMicroseconds_spec
    (timer.start.toNat + (timer.micros j - timer.micros 0))
  have hij := micros_mono timer h
  refine (RTPTime.le_iff hi hj).2 ?_
  rw [hvi, hvj, Nat.mod_eq_of_lt (by omega), Nat.mod_eq_of_lt hspan]
  omega

end HostTimer

/-! ## Runs of the clock -/

section
variable {timer : HostTimer} {times : List RTPTime} {c : Clock}

theorem clock_run (hrun : Run (fun c t c' => Clock.tick timer c = (t, c')) .init times c)
    (hfits : ∀ n < c.calls, timer.Fits n) :
    c = timer.clock times.length ∧ times = (List.range times.length).map timer.time := by
  induction hrun with
  | start => exact ⟨rfl, rfl⟩
  | @snoc times c c' t hrun hs ih =>
    have hcalls : c'.calls = c.calls + 1 := by
      have hsnd : (c.tick timer).2 = c' := congrArg Prod.snd hs
      rw [← hsnd]; rfl
    obtain ⟨rfl, htimes⟩ := ih fun n hn => hfits n (by omega)
    rw [HostTimer.tick_clock (hfits _ (by rw [hcalls]; exact Nat.lt_succ_self _))] at hs
    cases hs
    rw [List.length_append, List.length_singleton, List.range_succ, List.map_append, ← htimes]
    exact ⟨rfl, rfl⟩

/-- **The wall clock runs with the counter**: the difference of two times is the time that has
    passed on the counter, and they are in order until the seconds wrap around. -/
theorem clock_exact (hrun : Run (fun c t c' => Clock.tick timer c = (t, c')) .init times c)
    (hfits : ∀ n < c.calls, timer.Fits n) {i j : ℕ} {t t' : RTPTime} (hij : i ≤ j)
    (hi : times[i]? = some t) (hj : times[j]? = some t') :
    t'.sub t = .ofMicroseconds (timer.micros j - timer.micros i) ∧
      (timer.start.toNat + (timer.micros j - timer.micros 0) < RTPTime.span → t.le t' = true) := by
  obtain ⟨-, htimes⟩ := clock_run hrun hfits
  have htime : ∀ {n t}, times[n]? = some t → t = timer.time n := by
    intro n t hn
    rw [htimes, List.getElem?_map, Option.map_eq_some_iff] at hn
    obtain ⟨m, hm, rfl⟩ := hn
    obtain ⟨hlt, rfl⟩ := List.getElem?_eq_some_iff.1 hm
    rw [List.getElem_range]
  rw [htime hi, htime hj]
  exact ⟨HostTimer.time_sub hij, HostTimer.time_le hij⟩

end

/-- A counter with ten million steps a second: two seconds pass after the first call. -/
def pcTimer : HostTimer where
  frequency := 10000000
  performancecount
    | 0 => 100
    | _ + 1 => 20000100
  filetime _ := ⟨31000000, 0⟩
  frequency_ne := by decide
  frequency_le := by decide
  count_mono
    | 0, 0, _ | _ + 1, _ + 1, _ => UInt64.le_refl _
    | 0, _ + 1, _ => (by decide : (100 : UInt64) ≤ 20000100)

theorem pcTimer_fits (n : ℕ) : pcTimer.Fits n := by
  have hstart : pcTimer.start.toNat = 1669925017600000 := by decide
  have hmicros : pcTimer.micros n ≤ 2000010 := by
    cases n with
    | zero => decide
    | succ n => exact (by decide : pcTimer.micros 1 ≤ 2000010)
  unfold HostTimer.Fits
  omega

theorem clock_exact_pcTimer : ∃ t t' c,
    Run (fun c t c' => Clock.tick pcTimer c = (t, c')) .init [t, t'] c ∧
      t'.sub t = .ofMicroseconds 2000000 ∧ t.le t' = true := by
  have hrun : Run (fun c t c' => Clock.tick pcTimer c = (t, c')) .init
      [pcTimer.time 0, pcTimer.time 1] (pcTimer.clock 2) :=
    .snoc (.snoc .start (HostTimer.tick_clock (pcTimer_fits 0)))
      (HostTimer.tick_clock (pcTimer_fits 1))
  obtain ⟨hsub, hle⟩ := clock_exact hrun (fun n _ => pcTimer_fits n) (Nat.zero_le 1) rfl rfl
  exact ⟨_, _, _, hrun, hsub, hle (by decide)⟩

/-! ## The time that `recvPackets` measures -/

section
variable {σ : Type} (lib : RTPSession σ) (timer : HostTimer) (others : ℕ → ℕ)

/-- Calls of `CurrentTime` by other threads. -/
def Clock.skip : ℕ → Clock → Clock
  | 0, c => c
  | n + 1, c => skip n (c.tick timer).2

/-- Reading `n` of a thread, before which other threads have asked for the time `others n` times
    since its last reading. -/
def Clock.read (s : ℕ × Clock) : RTPTime × ℕ × Clock :=
  let (now, c) := (s.2.skip timer (others s.1)).tick timer
  (now, s.1 + 1, c)

/-- A session and the clock. -/
def clocked : RTPSession (σ × ℕ × Clock) where
  beginDataAccess s := (lib.beginDataAccess s.1, s.2)
  gotoFirstSourceWithData s :=
    let (found, session) := lib.gotoFirstSourceWithData s.1
    (found, session, s.2)
  gotoNextSourceWithData s :=
    let (found, session) := lib.gotoNextSourceWithData s.1
    (found, session, s.2)
  getNextPacket s :=
    let (packet, session) := lib.getNextPacket s.1
    (packet, session, s.2)
  deletePacket packet s := (lib.deletePacket packet s.1, s.2)
  endDataAccess s := (lib.endDataAccess s.1, s.2)
  currentTime s :=
    let (now, clock) := Clock.read timer others s.2
    (now, s.1, clock)

/-- The times that a run has asked for. -/
def timesRead (tr : List Call) : List RTPTime := tr.filterMap fun
  | .currentTime t => some t
  | _ => none

theorem timesRead_concat (tr : List Call) (call : Call) :
    timesRead (tr ++ [call]) = timesRead tr ++ timesRead [call] := List.filterMap_append

theorem timesRead_of_ne {call : Call} (h : ∀ t, call ≠ .currentTime t) : timesRead [call] = [] := by
  cases call with
  | currentTime t => exact absurd rfl (h t)
  | _ => rfl

variable {lib timer others} {h : RTPHandler} {f f' : Frame (σ × ℕ × Clock)} {call : Call}

/-- **What a call does to the clock**, and to the variables that hold times. -/
theorem clocked_cases (hs : recvStep (clocked lib timer others) h f = some (call, f')) :
    (f.pc = .starttime ∧ f'.pc = .createFile ∧
      call = .currentTime (Clock.read timer others f.session.2).1 ∧
      f'.session.2 = (Clock.read timer others f.session.2).2 ∧
      f'.starttime = some (Clock.read timer others f.session.2).1 ∧ f'.t = f.t) ∨
    (f.pc = .currentTime ∧ f'.pc = .loop ∧
      call = .currentTime (Clock.read timer others f.session.2).1 ∧
      f'.session.2 = (Clock.read timer others f.session.2).2 ∧ f'.starttime = f.starttime ∧
      ∃ starttime, f.starttime = some starttime ∧
        f'.t = some ((Clock.read timer others f.session.2).1.sub starttime)) ∨
    ((f.pc = .addDestination ∧ f'.pc = .starttime ∨ f.pc ≠ .addDestination ∧ f.pc ≠ .starttime ∧
        f'.pc ≠ .addDestination ∧ f'.pc ≠ .starttime) ∧
      (∀ t, call ≠ .currentTime t) ∧ f'.session.2 = f.session.2 ∧
      f'.starttime = f.starttime ∧ f'.t = f.t) := by
  rw [recvStep] at hs
  cases hpc : f.pc with
  | addDestination =>
    simp only [hpc] at hs
    cases hs
    exact .inr (.inr ⟨.inl ⟨rfl, rfl⟩, by simp, rfl, rfl, rfl⟩)
  | starttime =>
    simp only [hpc] at hs
    cases hs
    exact .inl ⟨rfl, rfl, rfl, rfl, rfl, rfl⟩
  | currentTime =>
    simp only [hpc] at hs
    obtain ⟨starttime, hstart, hs⟩ := Option.bind_eq_some_iff.1 hs
    cases hs
    exact .inr (.inl ⟨rfl, rfl, rfl, rfl, rfl, starttime, hstart, rfl⟩)
  | loop =>
    simp only [hpc] at hs
    split_ifs at hs
    · cases hs
      exact .inr (.inr ⟨.inr (by simp), by simp, rfl, rfl, rfl⟩)
    · cases hs
      exact .inr (.inr ⟨.inr (by simp), by simp, rfl, rfl, rfl⟩)
  | gotoFirst | gotoNext =>
    simp only [hpc] at hs
    cases hs
    refine .inr (.inr ⟨.inr ⟨by simp, by simp, ?_, ?_⟩, by simp, rfl, rfl, rfl⟩) <;>
    · dsimp only
      split_ifs <;> simp
  | getNextPacket =>
    simp only [hpc] at hs
    split at hs <;>
    · rename_i heq
      cases hs
      have hsession := congrArg (·.2.2) heq
      exact .inr (.inr ⟨.inr (by simp), by simp, hsession.symm, rfl, rfl⟩)
  | getPayloadData | getPayloadLength | deletePacket =>
    simp only [hpc] at hs
    obtain ⟨packet, -, hs⟩ := Option.bind_eq_some_iff.1 hs
    cases hs
    exact .inr (.inr ⟨.inr (by simp), by simp, rfl, rfl, rfl⟩)
  | writeFile =>
    simp only [hpc] at hs
    obtain ⟨recvdata, -, hs⟩ := Option.bind_eq_some_iff.1 hs
    obtain ⟨length, -, hs⟩ := Option.bind_eq_some_iff.1 hs
    cases hs
    exact .inr (.inr ⟨.inr (by simp), by simp [payloadWrite], rfl, rfl, rfl⟩)
  | createFile | endDataAccess =>
    simp only [hpc] at hs
    cases hs
    exact .inr (.inr ⟨.inr (by simp), by simp, rfl, rfl, rfl⟩)
  | returned => simp only [hpc] at hs; cases hs

theorem skip_calls : ∀ (n : ℕ) (c : Clock), (c.skip timer n).calls = c.calls + n
  | 0, _ => rfl
  | n + 1, c => by
    rw [Clock.skip, skip_calls n]
    show c.calls + 1 + n = c.calls + (n + 1)
    omega

theorem skip_clock : ∀ (k n : ℕ), (∀ m < n + k, timer.Fits m) →
    (timer.clock n).skip timer k = timer.clock (n + k)
  | 0, _, _ => rfl
  | k + 1, n, hfits => by
    rw [Clock.skip, HostTimer.tick_clock (hfits n (by omega)),
      skip_clock k (n + 1) fun m hm => hfits m (by omega)]
    congr 1; omega

theorem read_calls (s : ℕ × Clock) :
    (Clock.read timer others s).2.2.calls = s.2.calls + others s.1 + 1 := by
  show (s.2.skip timer (others s.1)).calls + 1 = _
  rw [skip_calls]

theorem read_clock {reading n : ℕ} (hfits : ∀ m < n + others reading + 1, timer.Fits m) :
    Clock.read timer others (reading, timer.clock n) =
      (timer.time (n + others reading), reading + 1, timer.clock (n + others reading + 1)) := by
  rw [Clock.read]
  dsimp only
  rw [skip_clock _ _ fun m hm => hfits m (by omega),
    HostTimer.tick_clock (hfits _ (Nat.lt_succ_self _))]

/-- A run in terms of the clock: `starttime` is the first time that has been read, and `t` what
    has passed since until the last one. -/
def Timed (timer : HostTimer) (n₀ : ℕ) (tr : List Call) (f : Frame (σ × ℕ × Clock)) : Prop :=
  ∃ n, n₀ ≤ n ∧ f.session.2.2 = timer.clock n ∧
    ((f.pc = .addDestination ∨ f.pc = .starttime) ∧ timesRead tr = [] ∧ f.t = none ∨
      f.pc ≠ .addDestination ∧ f.pc ≠ .starttime ∧ ∃ i, n₀ ≤ i ∧ i < n ∧
        f.starttime = some (timer.time i) ∧ (timesRead tr).head? = some (timer.time i) ∧
        ∀ t, f.t = some t → ∃ j, i < j ∧ j < n ∧ (timesRead tr).getLast? = some (timer.time j) ∧
          t = .ofMicroseconds (timer.micros j - timer.micros i))

theorem Timed.step {n₀ : ℕ} {tr : List Call} (hf : Timed timer n₀ tr f)
    (hfits : ∀ n < f'.session.2.2.calls, timer.Fits n)
    (hs : recvStep (clocked lib timer others) h f = some (call, f')) :
    Timed timer n₀ (tr ++ [call]) f' := by
  obtain ⟨n, hn, hclock, hpart⟩ := hf
  obtain ⟨reading, hreading⟩ : ∃ reading, f.session.2 = (reading, timer.clock n) :=
    ⟨f.session.2.1, Prod.ext rfl hclock⟩
  have hread : f'.session.2 = (Clock.read timer others f.session.2).2 →
      Clock.read timer others f.session.2 =
        (timer.time (n + others reading), reading + 1, timer.clock (n + others reading + 1)) := by
    intro hc
    have hcalls : f'.session.2.2.calls = n + others reading + 1 := by
      rw [hc, read_calls, hreading]; rfl
    rw [hreading, read_clock (hcalls ▸ hfits)]
  rcases clocked_cases hs with ⟨hpc, hpc', rfl, hc, hstart, ht⟩ |
    ⟨hpc, hpc', rfl, hc, hstart, start, hst, ht⟩ | ⟨hpc, hcall, hc, hstart, ht⟩
  · -- the first time that is read
    have hr := hread hc
    rw [hr] at hc hstart ⊢
    refine ⟨n + others reading + 1, by omega, by rw [hc], ?_⟩
    obtain ⟨-, hnil, hnone⟩ | ⟨-, hne, -⟩ := hpart
    · refine .inr ⟨by simp [hpc'], by simp [hpc'], n + others reading, by omega, Nat.lt_succ_self _,
        hstart, ?_, ?_⟩
      · rw [timesRead_concat, hnil]; rfl
      · rw [ht, hnone]; rintro t ⟨⟩
    · exact absurd hpc hne
  · have hr := hread hc
    rw [hr] at hc ht ⊢
    refine ⟨n + others reading + 1, by omega, by rw [hc], ?_⟩
    obtain ⟨hpc₂ | hpc₂, -⟩ | ⟨-, -, i, hi, hlt, hsome, hhead, -⟩ := hpart
    · rw [hpc] at hpc₂; cases hpc₂
    · rw [hpc] at hpc₂; cases hpc₂
    · refine .inr ⟨by simp [hpc'], by simp [hpc'], i, hi, by omega, hstart.trans hsome, ?_, ?_⟩
      · rw [timesRead_concat, List.head?_append, hhead]; rfl
      · intro t' ht'
        obtain rfl : timer.time i = start := Option.some.inj (hsome.symm.trans hst)
        rw [ht] at ht'
        cases ht'
        refine ⟨n + others reading, by omega, Nat.lt_succ_self _, ?_,
          HostTimer.time_sub (by omega)⟩
        rw [timesRead_concat]; exact List.getLast?_concat
  · -- no time is read
    have hsame : timesRead (tr ++ [call]) = timesRead tr := by
      rw [timesRead_concat, timesRead_of_ne hcall, List.append_nil]
    refine ⟨n, hn, by rw [hc, hclock], ?_⟩
    rw [hsame, hstart, ht]
    obtain ⟨hearly, hnil, hnone⟩ | ⟨hpc₁, hpc₂, hlast⟩ := hpart
    · rcases hpc with ⟨-, hpc'⟩ | ⟨hpc₁, hpc₂, -⟩
      · exact .inl ⟨.inr hpc', hnil, hnone⟩
      · exact (hearly.elim hpc₁ hpc₂).elim
    · rcases hpc with ⟨hpc, -⟩ | ⟨-, -, hpc₁', hpc₂'⟩
      · exact absurd hpc hpc₁
      · exact .inr ⟨hpc₁', hpc₂', hlast⟩

variable {s : σ} {reading n₀ : ℕ} {tr : List Call}

theorem RecvRun.timed
    (hrun : RecvRun (clocked lib timer others) h (s, reading, timer.clock n₀) tr f)
    (hfits : ∀ n < f.session.2.2.calls, timer.Fits n) : Timed timer n₀ tr f := by
  induction hrun with
  | start => exact ⟨n₀, Nat.le_refl _, rfl, .inl ⟨.inl rfl, rfl, rfl⟩⟩
  | @snoc tr f f' call hrun hs ih =>
    have hcalls : f.session.2.2.calls ≤ f'.session.2.2.calls := by
      rcases clocked_cases hs with ⟨-, -, -, hc, -⟩ | ⟨-, -, -, hc, -⟩ | ⟨-, -, hc, -⟩
      · rw [hc, read_calls]; omega
      · rw [hc, read_calls]; omega
      · rw [hc]
    exact (ih fun n hn => hfits n (by omega)).step hfits hs

/-- **`t` is the time that has passed**: on the counter, from the first time that a run has asked
    for to the last one, whatever other threads have asked for. -/
theorem RecvRun.elapsed
    (hrun : RecvRun (clocked lib timer others) h (s, reading, timer.clock n₀) tr f)
    (hfits : ∀ n < f.session.2.2.calls, timer.Fits n) {t : RTPTime} (ht : f.t = some t) :
    ∃ i j, n₀ ≤ i ∧ i < j ∧ j < f.session.2.2.calls ∧
      (timesRead tr).head? = some (timer.time i) ∧ (timesRead tr).getLast? = some (timer.time j) ∧
      t = .ofMicroseconds (timer.micros j - timer.micros i) := by
  obtain ⟨n, hn, hclock, ⟨-, -, hnone⟩ | ⟨-, -, i, hi, -, -, hhead, hlast⟩⟩ :=
    RecvRun.timed hrun hfits
  · rw [ht] at hnone; cases hnone
  · obtain ⟨j, hij, hj, hlast, rfl⟩ := hlast t ht
    exact ⟨i, j, hi, hij, by rw [hclock]; exact hj, hhead, hlast, rfl⟩

end

/-- A round without packets, in which another thread asks for the time. -/
def timedRound : List Call × Frame (SourceTable × ℕ × Clock) :=
  runFor (recvStep (clocked (tableSession (fun _ sources => sources) fun _ => ⟨0, 0⟩) pcTimer
    fun _ => 1) (initRTPHandler (fun _ => 127) 55778)) 7
    (Frame.entry (⟨[], 0, 0, 0⟩, 0, pcTimer.clock 0))

theorem elapsed_timedRound : ∃ t, timedRound.2.t = some t ∧ ∃ i j, i < j ∧
    t = .ofMicroseconds (pcTimer.micros j - pcTimer.micros i) := by
  cases ht : timedRound.2.t with
  | none => exact absurd ht (by decide)
  | some t =>
    obtain ⟨i, j, -, hij, -, -, -, heq⟩ :=
      RecvRun.elapsed (run_runFor _ _ 7) (fun n _ => pcTimer_fits n) ht
    exact ⟨t, rfl, i, j, hij, heq⟩

end RayionClient
