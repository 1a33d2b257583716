/-
  The time in a sender report, as the receiver sees it.

  A sender report carries the time of its sender as an NTP timestamp.  Whoever reads it
  with `GetNTPTimestamp` and makes an `RTPTime` of it (`senderTime`) has lost a
  microsecond at most, and of two reports the later one is not the earlier one for the
  receiver (`senderTime_inOrder`).
-/
import RayionClient.ReportFormat
import RayionClient.TimeConversion

namespace RayionClient

open Base

/-- `RTPTime(packet.GetNTPTimestamp())`. -/
def senderTime (p : RTCPReportPacket) : Option RTPTime := do
  let (msw, lsw) ← RTCPSRPacket.getNTPTimestamp p
  RTPTime.ofNTPTime ⟨msw, lsw⟩

/-- The packet is a sender report with the time `t`, up to 2036. -/
structure TellsTime (p : RTCPReportPacket) (t : RTPTime) : Prop where
  known : p.knownformat = true
  normalized : t.Normalized
  era : t.sec.toNat + 2208988800 < 2 ^ 32
  report : ∃ c rest info n, p.data = ReportContent.packet c rest ∧ c.info = some info ∧
    t.getNTPTime = some n ∧ info.ntptime = (n.msw, n.lsw)

section
variable {p p' : RTCPReportPacket} {t t' : RTPTime}

theorem TellsTime.senderTime_eq (h : TellsTime p t) :
    senderTime p = some ⟨t.sec, UInt32.ofNat (RTPTime.afterNTP t.microsec.toNat)⟩ := by
  obtain ⟨c, rest, info, n, hdata, hsome, hn, hntp⟩ := h.report
  have hread := (senderInfo_reads h.known hdata hsome).1
  have hback := RTPTime.ofNTPTime_getNTPTime h.normalized
  rw [hn, if_pos h.era] at hback
  rw [senderTime, hread, hntp]
  exact hback

/-- The receiver has the time of the sender, or a microsecond less. -/
theorem TellsTime.receives (h : TellsTime p t) : ∃ r, senderTime p = some r ∧ r.Normalized ∧
    r.value + t.microsec.toNat = t.value + RTPTime.afterNTP t.microsec.toNat := by
  have hle := RTPTime.afterNTP_le t.microsec.toNat
  have ht := h.normalized
  unfold RTPTime.Normalized at ht
  have hafter : (UInt32.ofNat (RTPTime.afterNTP t.microsec.toNat)).toNat =
      RTPTime.afterNTP t.microsec.toNat :=
    UInt32.toNat_ofNat_of_lt' (lt_of_le_of_lt hle (ht.trans (by decide)))
  refine ⟨_, h.senderTime_eq, ?_, ?_⟩
  · unfold RTPTime.Normalized
    rw [hafter]
    omega
  · unfold RTPTime.value
    dsimp only
    rw [hafter]
    omega

theorem RTPTime.le_afterNTP (m : ℕ) : m ≤ afterNTP m + 1 := by
  unfold afterNTP
  split_ifs <;> omega

/-- **The receiver has the times of the sender up to a microsecond, and in their order.** -/
theorem senderTime_inOrder (h : TellsTime p t) (h' : TellsTime p' t') :
    ∃ r r', senderTime p = some r ∧ senderTime p' = some r' ∧ r.Normalized ∧ r'.Normalized ∧
      (r.value ≤ t.value ∧ t.value ≤ r.value + 1) ∧
      (r'.value ≤ t'.value ∧ t'.value ≤ r'.value + 1) ∧ (t.le t' = true → r.le r' = true) := by
  obtain ⟨r, hr, hnorm, hvalue⟩ := h.receives
  obtain ⟨r', hr', hnorm', hvalue'⟩ := h'.receives
  have hle := RTPTime.afterNTP_le t.microsec.toNat
  have hle' := RTPTime.afterNTP_le t'.microsec.toNat
  have hge := RTPTime.le_afterNTP t.microsec.toNat
  have hge' := RTPTime.le_afterNTP t'.microsec.toNat
  refine ⟨r, r', hr, hr', hnorm, hnorm', by omega, by omega, ?_⟩
  rw [RTPTime.le_iff h.normalized h'.normalized, RTPTime.le_iff hnorm hnorm']
  intro horder
  rcases Nat.lt_or_eq_of_le horder with hlt | heq
  · omega
  · -- the same time is the same time for the receiver
    obtain rfl := RTPTime.value_inj h.normalized h'.normalized heq
    omega

/-- The report of a sender that has sent nothing yet. -/
def timeReport (n : RTPNTPTime) : RTCPReportPacket :=
  ⟨ReportContent.packet ⟨7, some ⟨(n.msw, n.lsw), 0, 0, 0⟩, []⟩ [], true⟩

theorem tellsTime_timeReport {n : RTPNTPTime} (ht : t.Normalized)
    (hera : t.sec.toNat + 2208988800 < 2 ^ 32) (hn : t.getNTPTime = some n) :
    TellsTime (timeReport n) t where
  known := rfl
  normalized := ht
  era := hera
  report := ⟨_, _, _, n, rfl, rfl, hn, rfl⟩

theorem senderTime_inOrder_epoch : ∃ p p' r r', TellsTime p ⟨0, 0⟩ ∧ TellsTime p' ⟨0, 1⟩ ∧
    senderTime p = some r ∧ senderTime p' = some r' ∧ r.le r' = true := by
  have ht : (⟨0, 0⟩ : RTPTime).Normalized := by decide
  have ht' : (⟨0, 1⟩ : RTPTime).Normalized := by decide
  have h := tellsTime_timeReport ht (by decide) (RTPTime.getNTPTime_eq ht)
  have h' := tellsTime_timeReport ht' (by decide) (RTPTime.getNTPTime_eq ht')
  obtain ⟨r, r', hr, hr', -, -, -, -, horder⟩ := senderTime_inOrder h h'
  exact ⟨_, _, r, r', h, h', hr, hr', horder (by decide)⟩

end

end RayionClient
