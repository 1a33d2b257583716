/-
  What a report says, and its bytes.

  `report_reads`: the methods of `RTCPSRPacket` and of `RTCPRRPacket` return the sender,
  the sender information and the blocks of the report that a packet has been made of,
  lost packets with their sign.
  `blockView_defined_iff`: for any bytes, the methods for an index stay inside the packet
  exactly if its 24 bytes are there.
  `report_defined_iff`: which indices are safe on a report, with the wrap of the product.
-/
import RayionClient.ReportPacket

namespace RayionClient

open Base

/-! ## Signed numbers of three bytes -/

/-- A number of 24 bits in network byte order. -/
def be24 (n : ℕ) : List UInt8 := [UInt8.ofNat (n / 2 ^ 16), UInt8.ofNat (n / 2 ^ 8), UInt8.ofNat n]

/-- Two's complement with 24 bits. -/
def bits24 (n : ℤ) : ℕ := (n % 2 ^ 24).toNat

theorem packetslost_toNat (b0 b1 b2 : UInt8) :
    (b2.toUInt32 ||| b1.toUInt32 <<< 8 ||| b0.toUInt32 <<< 16).toNat =
      b2.toNat + 2 ^ 8 * b1.toNat + 2 ^ 16 * b0.toNat := by
  have h := packBE_eq fun j => [0, b0, b1, b2].getD j 0
  have hzero : (0 : UInt8).toUInt32 <<< 24 = 0 := by decide
  have hpack : packBE (fun j => [0, b0, b1, b2].getD j 0) =
      b2.toUInt32 ||| b1.toUInt32 <<< 8 ||| b0.toUInt32 <<< 16 |||
        (0 : UInt8).toUInt32 <<< 24 := rfl
  rw [hzero, UInt32.or_zero] at hpack
  rw [← hpack, h, loadBE, loadLE_toNat]
  exact Nat.add_zero _

/-- The sign bit is bit 23. -/
theorem and_sign_iff {count : UInt32} (h : count.toNat < 2 ^ 24) :
    count &&& 0x00800000 ≠ 0 ↔ 2 ^ 23 ≤ count.toNat := by
  have hbit : (count &&& 0x00800000).toNat = (count.toNat.testBit 23).toNat * 2 ^ 23 := by
    rw [UInt32.toNat_and]; exact Nat.and_two_pow _ 23
  have hzero : count &&& 0x00800000 = 0 ↔ count.toNat.testBit 23 = false := by
    rw [← UInt32.toNat_inj, hbit]
    cases count.toNat.testBit 23 <;> simp
  rw [ne_eq, hzero, Nat.testBit_eq_decide_div_mod_eq, decide_eq_false_iff_not]
  omega

/-- **The sign is extended**, and two's complement with 24 bits is read back. -/
theorem signExtend_eq {count : UInt32} {n : ℤ} (hn : -2 ^ 23 ≤ n ∧ n < 2 ^ 23)
    (h : count.toNat = bits24 n) :
    (if count &&& 0x00800000 ≠ 0 then count ||| 0xFF000000 else count).toInt32.toInt = n := by
  have hbits : (bits24 n : ℤ) = if n < 0 then n + 2 ^ 24 else n := by
    rw [bits24, Int.toNat_of_nonneg (Int.emod_nonneg _ (by decide))]
    split_ifs <;> omega
  have hlt : count.toNat < 2 ^ 24 := by rw [h]; split_ifs at hbits <;> omega
  have hor : (count ||| 0xFF000000).toNat = count.toNat + 2 ^ 24 * 255 := by
    rw [UInt32.toNat_or]; exact or_mul_pow hlt 255
  have hint : ∀ w : UInt32, w.toInt32.toInt =
      if 2 * w.toNat < 2 ^ 32 then (w.toNat : ℤ) else w.toNat - 2 ^ 32 :=
    fun w => BitVec.toInt_eq_toNat_cond w.toBitVec
  by_cases hneg : n < 0
  · rw [if_pos hneg] at hbits
    rw [if_pos ((and_sign_iff hlt).2 (by omega)), hint, hor, if_neg (by omega)]
    omega
  · rw [if_neg hneg] at hbits
    rw [if_neg (by rw [and_sign_iff hlt]; omega), hint, if_pos (by omega)]
    omega

/-! ## Blocks -/

/-- A report block; the lost packets are a signed number of 24 bits. -/
structure ReportBlock where
  ssrc : UInt32
  fractionlost : UInt8
  packetslost : Int32
  exthighseqnr : UInt32
  jitter : UInt32
  lsr : UInt32
  dlsr : UInt32
  lost_range : -2 ^ 23 ≤ packetslost.toInt ∧ packetslost.toInt < 2 ^ 23

/-- The 24 bytes of a block. -/
def ReportBlock.bytes (b : ReportBlock) : List UInt8 :=
  be32 b.ssrc ++ (b.fractionlost :: (be24 (bits24 b.packetslost.toInt) ++ (be32 b.exthighseqnr ++
    (be32 b.jitter ++ (be32 b.lsr ++ be32 b.dlsr)))))

theorem ReportBlock.length_bytes (b : ReportBlock) : b.bytes.length = sizeofReceiverReport := by
  simp [bytes, be24, length_be32, sizeofReceiverReport]

/-- What the methods of an index return. -/
structure BlockView where
  ssrc : Option UInt32
  fractionlost : Option UInt8
  packetslost : Option Int32
  exthighseqnr : Option UInt32
  jitter : Option UInt32
  lsr : Option UInt32
  dlsr : Option UInt32
  deriving DecidableEq

/-- All of them have a result. -/
def BlockView.Defined (v : BlockView) : Prop :=
  v.ssrc.isSome ∧ v.fractionlost.isSome ∧ v.packetslost.isSome ∧ v.exthighseqnr.isSome ∧
    v.jitter.isSome ∧ v.lsr.isSome ∧ v.dlsr.isSome

/-- What the methods should return for a block. -/
def ReportBlock.view (b : ReportBlock) : BlockView :=
  ⟨some b.ssrc, some b.fractionlost, some b.packetslost, some b.exthighseqnr, some b.jitter,
    some b.lsr, some b.dlsr⟩

/-- The fields of the block at `r`. -/
def RTCPReportPacket.blockView (p : RTCPReportPacket) (r : UInt32) : BlockView :=
  ⟨p.reportWord r 0, p.fractionLost r, p.lostPacketCount r, p.reportWord r 8, p.reportWord r 12,
    p.reportWord r 16, p.reportWord r 20⟩

/-- The methods of `RTCPRRPacket` for an index. -/
def RTCPRRPacket.view (p : RTCPReportPacket) (index : Int32) : BlockView :=
  ⟨getSSRC p index, getFractionLost p index, getLostPacketCount p index,
    getExtendedHighestSequenceNumber p index, getJitter p index, getLSR p index, getDLSR p index⟩

/-- The methods of `RTCPSRPacket` for an index. -/
def RTCPSRPacket.view (p : RTCPReportPacket) (index : Int32) : BlockView :=
  ⟨getSSRC p index, getFractionLost p index, getLostPacketCount p index,
    getExtendedHighestSequenceNumber p index, getJitter p index, getLSR p index, getDLSR p index⟩

section
variable {p : RTCPReportPacket} {r : UInt32} {b : ReportBlock}

/-- The fields of a block do not wrap around. -/
theorem toNat_field {field : UInt32} (hr : r.toNat + sizeofReceiverReport ≤ 2 ^ 32)
    (hfield : field.toNat < sizeofReceiverReport) :
    (r + field).toNat = r.toNat + field.toNat := by
  rw [UInt32.toNat_add, Nat.mod_eq_of_lt (by omega)]

theorem reportWord_eq {field w : UInt32} (known : p.knownformat = true)
    (h : At p.data (r + field).toNat (be32 w)) : p.reportWord r field = some w := by
  rw [RTCPReportPacket.reportWord, known]; exact h.wordAt

/-- The three bytes of a number. -/
theorem lostPacketCount_eq {lost : Int32} (known : p.knownformat = true)
    (hr : r.toNat + sizeofReceiverReport ≤ 2 ^ 32)
    (hrange : -2 ^ 23 ≤ lost.toInt ∧ lost.toInt < 2 ^ 23)
    (h : At p.data (r.toNat + 5) (be24 (bits24 lost.toInt))) : p.lostPacketCount r = some lost := by
  obtain ⟨h0, h⟩ := at_cons.1 h
  obtain ⟨h1, h⟩ := at_cons.1 h
  have h2 := (at_cons.1 h).1
  have hlt : bits24 lost.toInt < 2 ^ 24 := by
    rw [bits24]; omega
  have hcount : ((UInt8.ofNat (bits24 lost.toInt)).toUInt32 |||
      (UInt8.ofNat (bits24 lost.toInt / 2 ^ 8)).toUInt32 <<< 8 |||
      (UInt8.ofNat (bits24 lost.toInt / 2 ^ 16)).toUInt32 <<< 16).toNat = bits24 lost.toInt := by
    rw [packetslost_toNat, UInt8.toNat_ofNat', UInt8.toNat_ofNat', UInt8.toNat_ofNat']
    omega
  rw [RTCPReportPacket.lostPacketCount, known, toNat_field hr (by decide),
    toNat_field hr (by decide), toNat_field hr (by decide),
    show p.data[r.toNat + (7 : UInt32).toNat]? = _ from h2,
    show p.data[r.toNat + (6 : UInt32).toNat]? = _ from h1,
    show p.data[r.toNat + (5 : UInt32).toNat]? = _ from h0]
  refine congrArg some (Int32.toInt_inj.1 ?_)
  exact signExtend_eq hrange hcount

/-- **A block is read as it has been written.** -/
theorem blockView_eq (known : p.knownformat = true) (hr : r.toNat + sizeofReceiverReport ≤ 2 ^ 32)
    (h : At p.data r.toNat b.bytes) : p.blockView r = b.view := by
  simp only [ReportBlock.bytes, at_append, at_cons, length_be32, Nat.add_assoc] at h
  obtain ⟨hssrc, hfraction, hlost, hext, hjitter, hlsr, hdlsr⟩ := h
  have hword : ∀ {field w : UInt32}, field.toNat < sizeofReceiverReport →
      At p.data (r.toNat + field.toNat) (be32 w) → p.reportWord r field = some w := by
    intro field w hfield hw
    exact reportWord_eq known (by rwa [toNat_field hr hfield])
  have hfraction : p.fractionLost r = some b.fractionlost := by
    rw [RTCPReportPacket.fractionLost, known, toNat_field hr (by decide)]; exact hfraction
  have hssrc : p.reportWord r 0 = some b.ssrc := hword (by decide) hssrc
  have hext : p.reportWord r 8 = some b.exthighseqnr := hword (by decide) hext
  have hjitter : p.reportWord r 12 = some b.jitter := hword (by decide) hjitter
  have hlsr : p.reportWord r 16 = some b.lsr := hword (by decide) hlsr
  have hdlsr : p.reportWord r 20 = some b.dlsr := hword (by decide) hdlsr
  rw [RTCPReportPacket.blockView, ReportBlock.view, hssrc, hfraction,
    lostPacketCount_eq known hr b.lost_range hlost, hext, hjitter, hlsr, hdlsr]

/-- **For any bytes**, the methods read bytes of the packet only, exactly if all 24 are there.
    The packet ends before the last addresses. -/
theorem blockView_defined_iff (known : p.knownformat = true)
    (hfit : p.data.length + sizeofReceiverReport ≤ 2 ^ 32) :
    (p.blockView r).Defined ↔ r.toNat + sizeofReceiverReport ≤ p.data.length := by
  have hword : ∀ field, (p.reportWord r field).isSome ↔ (r + field).toNat + 4 ≤ p.data.length := by
    intro field
    rw [RTCPReportPacket.reportWord, known]; exact wordAt_isSome_iff
  rw [BlockView.Defined]
  constructor
  · rintro ⟨hssrc, -, -, -, -, -, hdlsr⟩
    have hfirst := (hword 0).1 hssrc
    have hlast := (hword 20).1 hdlsr
    rw [UInt32.add_zero] at hfirst
    rw [toNat_field (by omega) (by decide)] at hlast
    exact hlast
  · intro h
    have hr : r.toNat + sizeofReceiverReport ≤ 2 ^ 32 := by omega
    have hin : ∀ field : UInt32, field.toNat + 4 ≤ sizeofReceiverReport →
        (p.reportWord r field).isSome := by
      intro field hfield
      rw [hword, toNat_field hr (by omega)]; omega
    have hget : ∀ field : UInt32, field.toNat < sizeofReceiverReport →
        ∃ b, p.data[(r + field).toNat]? = some b := fun field hfield =>
      ⟨_, List.getElem?_eq_getElem (by rw [toNat_field hr hfield]; omega)⟩
    obtain ⟨b4, h4⟩ := hget 4 (by decide)
    obtain ⟨b5, h5⟩ := hget 5 (by decide)
    obtain ⟨b6, h6⟩ := hget 6 (by decide)
    obtain ⟨b7, h7⟩ := hget 7 (by decide)
    refine ⟨hin 0 (by decide), ?_, ?_, hin 8 (by decide), hin 12 (by decide), hin 16 (by decide),
      hin 20 (by decide)⟩
    · show (p.fractionLost r).isSome
      rw [RTCPReportPacket.fractionLost, known, h4]; rfl
    · show (p.lostPacketCount r).isSome
      rw [RTCPReportPacket.lostPacketCount, known, h5, h6, h7]; rfl

end

/-! ## Offsets of blocks -/

/-- How far the block of an index is from the first one: a product of 32 bits, as a signed
    number. -/
def blockOffset (index : Int32) : ℤ := (index * 24).toInt

theorem blockOffset_bounds (index : Int32) :
    -2 ^ 31 ≤ blockOffset index ∧ blockOffset index < 2 ^ 31 :=
  ⟨Int32.le_toInt _, Int32.toInt_lt _⟩

/-- Without overflow it is 24 bytes for each index. -/
theorem blockOffset_eq {index : Int32} (hge : -89478485 ≤ index.toInt)
    (hle : index.toInt ≤ 89478485) : blockOffset index = index.toInt * 24 := by
  rw [blockOffset, Int32.toInt_mul, show (24 : Int32).toInt = 24 from rfl]
  exact Int.bmod_eq_of_le (by omega) (by omega)

/-- What is added to the offset of the first block. -/
theorem toNat_goto (base : ℕ) (index : Int32) :
    ((UInt32.ofNat base + index.toUInt32 * UInt32.ofNat sizeofReceiverReport).toNat : ℤ) =
      (base + blockOffset index) % 2 ^ 32 := by
  have hint : blockOffset index = if 2 * (index * 24).toUInt32.toNat < 2 ^ 32 then
      ((index * 24).toUInt32.toNat : ℤ) else (index * 24).toUInt32.toNat - 2 ^ 32 :=
    BitVec.toInt_eq_toNat_cond (index * 24).toBitVec
  have hmul : index.toUInt32 * UInt32.ofNat sizeofReceiverReport = (index * 24).toUInt32 := rfl
  rw [hmul, UInt32.toNat_add, UInt32.toNat_ofNat', hint]
  split_ifs <;> omega

/-- The indices of the blocks of a packet do not overflow. -/
theorem toNat_goto_ofNat {base i : ℕ} (hbase : base ≤ 28) (hi : i < 31) :
    (UInt32.ofNat base + (Int32.ofNat i).toUInt32 * UInt32.ofNat sizeofReceiverReport).toNat =
      base + i * sizeofReceiverReport := by
  have hint : (Int32.ofNat i).toInt = i := Int32.toInt_ofNat_of_lt (by omega)
  have hgoto := toNat_goto base (Int32.ofNat i)
  rw [blockOffset_eq (by omega) (by omega), hint] at hgoto
  rw [sizeofReceiverReport] at hgoto ⊢
  omega

/-! ## Reports -/

/-- What a sender says about itself. -/
structure SenderInfo where
  ntptime : UInt32 × UInt32
  rtptimestamp : UInt32
  packetcount : UInt32
  octetcount : UInt32

/-- The 20 bytes of the sender information. -/
def SenderInfo.bytes (info : SenderInfo) : List UInt8 :=
  be32 info.ntptime.1 ++ (be32 info.ntptime.2 ++ (be32 info.rtptimestamp ++
    (be32 info.packetcount ++ be32 info.octetcount)))

/-- A sender report if there is sender information, or a receiver report. -/
structure ReportContent where
  sender : UInt32
  info : Option SenderInfo
  blocks : List ReportBlock

namespace ReportContent
variable (c : ReportContent)

/-- The bytes of the sender information, if there is any. -/
def infoBytes : List UInt8 := (c.info.map SenderInfo.bytes).getD []

/-- What is behind the header. -/
def body : List UInt8 := be32 c.sender ++ (c.infoBytes ++ c.blocks.flatMap ReportBlock.bytes)

/-- The packet, and whatever is behind it. -/
def packet (rest : List UInt8) : List UInt8 :=
  commonHeader c.blocks.length (if c.info.isSome then 200 else 201) c.body.length ++
    (c.body ++ rest)

theorem body_at {c : ReportContent} {data rest : List UInt8} (h : data = c.packet rest) :
    At data sizeofCommonHeader c.body := by
  rw [h, packet, At, ← length_commonHeader c.blocks.length (if c.info.isSome then 200 else 201)
    c.body.length, List.drop_left]
  exact List.prefix_append _ _

theorem length_packet (rest : List UInt8) : (c.packet rest).length =
    8 + (if c.info.isSome then sizeofSenderReport else 0) +
      c.blocks.length * sizeofReceiverReport + rest.length := by
  have hinfo : c.infoBytes.length = if c.info.isSome then sizeofSenderReport else 0 := by
    rw [infoBytes]
    cases c.info <;> simp [SenderInfo.bytes, length_be32, sizeofSenderReport]
  have hblocks : (c.blocks.flatMap ReportBlock.bytes).length =
      c.blocks.length * sizeofReceiverReport := by
    rw [List.length_flatMap]
    simp [ReportBlock.length_bytes]
  have hbody : c.body.length = 4 + ((if c.info.isSome then sizeofSenderReport else 0) +
      c.blocks.length * sizeofReceiverReport) := by
    rw [body, List.length_append, List.length_append, length_be32, hinfo, hblocks]
  rw [packet, List.length_append, List.length_append, length_commonHeader, hbody,
    sizeofCommonHeader]
  omega

end ReportContent

/-- A sender report with two blocks; of the first source, five packets more than expected have
    arrived. -/
def senderReport : ReportContent :=
  ⟨7, some ⟨(3, 4), 5, 6, 7⟩, [⟨9, 128, -5, 70000, 3, 2, 1, by decide⟩,
    ⟨10, 0, 8388607, 4294967295, 4, 5, 6, by decide⟩]⟩

/-- The packet with this report, and nothing behind it. -/
def senderReportPacket : RTCPReportPacket := ⟨senderReport.packet [], true⟩

section
variable {p : RTCPReportPacket} {c : ReportContent} {rest : List UInt8}

/-- The sender information and the blocks behind it. -/
theorem ReportContent.info_at (hdata : p.data = c.packet rest) {info : SenderInfo}
    (hsome : c.info = some info) :
    At p.data (sizeofCommonHeader + sizeofUint32) info.bytes ∧
      At p.data (sizeofCommonHeader + sizeofUint32 + sizeofSenderReport)
        (c.blocks.flatMap ReportBlock.bytes) := by
  have hbody := body_at hdata
  have hlen : info.bytes.length = sizeofSenderReport := by
    simp [SenderInfo.bytes, length_be32, sizeofSenderReport]
  rw [body, at_append, at_append, length_be32, infoBytes, hsome, Option.map_some,
    Option.getD_some, hlen] at hbody
  exact hbody.2

/-- The sender information is read as it has been written. -/
theorem senderInfo_reads (known : p.knownformat = true) (hdata : p.data = c.packet rest)
    {info : SenderInfo} (hsome : c.info = some info) :
    RTCPSRPacket.getNTPTimestamp p = some info.ntptime ∧
      RTCPSRPacket.getRTPTimestamp p = some info.rtptimestamp ∧
      RTCPSRPacket.getSenderPacketCount p = some info.packetcount ∧
      RTCPSRPacket.getSenderOctetCount p = some info.octetcount := by
  have hinfo := (ReportContent.info_at hdata hsome).1
  simp only [SenderInfo.bytes, at_append, length_be32, Nat.add_assoc] at hinfo
  obtain ⟨hmsw, hlsw, hrtp, hpackets, hoctets⟩ := hinfo
  have hmsw : RTCPSRPacket.senderWord p 0 = some info.ntptime.1 := reportWord_eq known hmsw
  have hlsw : RTCPSRPacket.senderWord p 4 = some info.ntptime.2 := reportWord_eq known hlsw
  refine ⟨?_, reportWord_eq known hrtp, reportWord_eq known hpackets, reportWord_eq known hoctets⟩
  rw [RTCPSRPacket.getNTPTimestamp, hmsw, hlsw]; rfl

/-- **A report is read as it has been written**: who sent it, and each of its blocks, by the
    methods of the one class or of the other. -/
theorem report_reads (known : p.knownformat = true) (hdata : p.data = c.packet rest)
    (hle : c.blocks.length ≤ 31) :
    p.getSenderSSRC = some c.sender ∧ p.getReceptionReportCount = some ↑c.blocks.length ∧
      (c.info = none → ∀ i (hi : i < c.blocks.length),
        RTCPRRPacket.view p (Int32.ofNat i) = c.blocks[i].view) ∧
      ∀ info, c.info = some info →
        RTCPSRPacket.getNTPTimestamp p = some info.ntptime ∧
        RTCPSRPacket.getRTPTimestamp p = some info.rtptimestamp ∧
        RTCPSRPacket.getSenderPacketCount p = some info.packetcount ∧
        RTCPSRPacket.getSenderOctetCount p = some info.octetcount ∧
        ∀ i (hi : i < c.blocks.length),
          RTCPSRPacket.view p (Int32.ofNat i) = c.blocks[i].view := by
  have hbody := ReportContent.body_at hdata
  rw [ReportContent.body, at_append, at_append, length_be32] at hbody
  obtain ⟨hsender, -, hblocks⟩ := hbody
  have hsize : ∀ b : ReportBlock, b.bytes.length = sizeofReceiverReport := fun b => b.length_bytes
  have hview : ∀ (base : ℕ) {i : ℕ} {b : ReportBlock}, base ≤ 28 →
      At p.data (base + i * sizeofReceiverReport) b.bytes → i < 31 →
      p.blockView (UInt32.ofNat base +
        (Int32.ofNat i).toUInt32 * UInt32.ofNat sizeofReceiverReport) = b.view := by
    intro base i b hbase hat hi
    have hgoto := toNat_goto_ofNat hbase hi
    refine blockView_eq known ?_ (by rwa [hgoto])
    rw [hgoto, sizeofReceiverReport]; omega
  refine ⟨?_, ?_, fun hnone i hi => ?_, fun info hsome => ?_⟩
  · rw [RTCPReportPacket.getSenderSSRC, known]; exact hsender.wordAt
  · rw [RTCPReportPacket.getReceptionReportCount, known, hdata]
    exact headerCount_commonHeader hle _ _ _
  · rw [ReportContent.infoBytes, hnone] at hblocks
    exact hview 8 (by decide) (hblocks.flatMap hsize hi) (by omega)
  · obtain ⟨hntp, hrtp, hpackets, hoctets⟩ := senderInfo_reads known hdata hsome
    have hblocks := (ReportContent.info_at hdata hsome).2
    exact ⟨hntp, hrtp, hpackets, hoctets, fun i hi =>
      hview 28 (by decide) (hblocks.flatMap hsize hi) (by omega)⟩

theorem report_reads_senderReport :
    RTCPSRPacket.view senderReportPacket 0 =
      ⟨some 9, some 128, some (-5), some 70000, some 3, some 2, some 1⟩ ∧
    RTCPSRPacket.view senderReportPacket 1 =
      ⟨some 10, some 0, some 8388607, some 4294967295, some 4, some 5, some 6⟩ := by
  have known : senderReportPacket.knownformat = true := rfl
  have hdata : senderReportPacket.data = senderReport.packet [] := rfl
  obtain ⟨-, -, -, h⟩ := report_reads known hdata (by decide)
  have hview := (h ⟨(3, 4), 5, 6, 7⟩ rfl).2.2.2.2
  exact ⟨hview 0 (by decide), hview 1 (by decide)⟩

/-- **Which indices are safe**, where nothing is behind the report: by the product of 32 bits, and
    where it does not overflow, the blocks that there are; a sender report has 24 bytes in front of
    them, too. -/
theorem report_defined_iff (known : p.knownformat = true) (hdata : p.data = c.packet [])
    (hle : c.blocks.length ≤ 31) (index : Int32) :
    (c.info = none → ((RTCPRRPacket.view p index).Defined ↔
      -8 ≤ blockOffset index ∧ blockOffset index + 24 ≤ 24 * c.blocks.length)) ∧
    (c.info.isSome → ((RTCPSRPacket.view p index).Defined ↔
      -28 ≤ blockOffset index ∧ blockOffset index + 24 ≤ 24 * c.blocks.length)) ∧
    (-89478485 ≤ index.toInt → index.toInt ≤ 89478485 →
      (c.info = none → ((RTCPRRPacket.view p index).Defined ↔
        0 ≤ index.toInt ∧ index.toInt < c.blocks.length)) ∧
      (c.info.isSome → ((RTCPSRPacket.view p index).Defined ↔
        -1 ≤ index.toInt ∧ index.toInt < c.blocks.length))) := by
  have hlen := c.length_packet []
  rw [← hdata, List.length_nil, sizeofSenderReport, sizeofReceiverReport] at hlen
  have hbounds := blockOffset_bounds index
  have hfit : p.data.length + sizeofReceiverReport ≤ 2 ^ 32 := by
    rw [sizeofReceiverReport, hlen]
    split_ifs <;> omega
  have hreceiver : c.info = none → ((RTCPRRPacket.view p index).Defined ↔
      -8 ≤ blockOffset index ∧ blockOffset index + 24 ≤ 24 * c.blocks.length) := by
    intro hnone
    have hgoto : ((RTCPRRPacket.gotoReport index).toNat : ℤ) = _ := toNat_goto 8 index
    refine (blockView_defined_iff known hfit).trans ?_
    simp only [hnone, Option.isSome_none, Bool.false_eq_true, if_false] at hlen
    rw [hlen, sizeofReceiverReport]
    omega
  have hsender : c.info.isSome → ((RTCPSRPacket.view p index).Defined ↔
      -28 ≤ blockOffset index ∧ blockOffset index + 24 ≤ 24 * c.blocks.length) := by
    intro hsome
    have hgoto : ((RTCPSRPacket.gotoReport index).toNat : ℤ) = _ := toNat_goto 28 index
    refine (blockView_defined_iff known hfit).trans ?_
    rw [if_pos hsome] at hlen
    rw [hlen, sizeofReceiverReport]
    omega
  refine ⟨hreceiver, hsender, ?_⟩
  intro hge hle'
  have hoffset := blockOffset_eq hge hle'
  constructor
  · intro hnone
    rw [hreceiver hnone, hoffset]
    omega
  · intro hsome
    rw [hsender hsome, hoffset]
    omega

/-- The index behind the blocks, the one in front of them, and one whose product wraps around. -/
theorem report_defined_senderReport : ¬ (RTCPSRPacket.view senderReportPacket 2).Defined ∧
    (RTCPSRPacket.view senderReportPacket (-1)).Defined ∧
    (RTCPSRPacket.view senderReportPacket 536870912).Defined := by
  have known : senderReportPacket.knownformat = true := rfl
  have hdata : senderReportPacket.data = senderReport.packet [] := rfl
  have h := fun index => (report_defined_iff known hdata (by decide) index).2.1 rfl
  rw [h, h, h]
  decide

end

end RayionClient
