/-
  rtcpsrpacket.h, rtcprrpacket.h — the classes `RTCPSRPacket` and `RTCPRRPacket`, which
  read the report blocks of a sender and of a receiver report.

  Both go to the block of an index and read its fields; they differ in where the first
  block is.  The index is an `int`, and its product with the size of a block is a `size_t`
  of 32 bits, as is the offset of a field.  No check is made on the index: a method has no
  result where it reads other bytes than those of the packet.
-/
import RayionClient.Base.NetworkWord
import RayionClient.RTCPHeader

namespace RayionClient

open Base

/-- The members of both classes; `data` is the `datalen` bytes of the packet. -/
structure RTCPReportPacket where
  data : List UInt8
  knownformat : Bool

/-- `sizeof(RTCPReceiverReport)` -/
def sizeofReceiverReport : ℕ := 24

/-- `sizeof(RTCPSenderReport)` -/
def sizeofSenderReport : ℕ := 20

namespace RTCPReportPacket
variable (p : RTCPReportPacket)

/-- `GetSenderSSRC`. -/
def getSenderSSRC : Option UInt32 :=
  if !p.knownformat then some 0 else wordAt p.data sizeofCommonHeader

/-- `GetReceptionReportCount`. -/
def getReceptionReportCount : Option ℤ :=
  if !p.knownformat then some 0 else headerCount p.data

/-! ### The fields of the block at `r` -/

variable (r : UInt32)

/-- A field of 32 bits. -/
def reportWord (field : UInt32) : Option UInt32 :=
  if !p.knownformat then some 0 else wordAt p.data (r + field).toNat

/-- A field of one byte. -/
def fractionLost : Option UInt8 := if !p.knownformat then some 0 else p.data[(r + 4).toNat]?

/-- Three bytes, as a signed number. -/
def lostPacketCount : Option Int32 :=
  if !p.knownformat then some 0
  else do
    let packetslost2 ← p.data[(r + 7).toNat]?
    let packetslost1 ← p.data[(r + 6).toNat]?
    let packetslost0 ← p.data[(r + 5).toNat]?
    let count := packetslost2.toUInt32 ||| packetslost1.toUInt32 <<< 8 |||
      packetslost0.toUInt32 <<< 16
    let count := if count &&& 0x00800000 ≠ 0 then count ||| 0xFF000000 else count
    return count.toInt32

end RTCPReportPacket

/-! ## Receiver reports -/

namespace RTCPRRPacket
variable (p : RTCPReportPacket) (index : Int32)

/-- `GotoReport`, as the offset in the packet. -/
def gotoReport : UInt32 :=
  UInt32.ofNat (sizeofCommonHeader + sizeofUint32) +
    index.toUInt32 * UInt32.ofNat sizeofReceiverReport

/-- `GetSSRC`. -/
def getSSRC : Option UInt32 := p.reportWord (gotoReport index) 0

/-- `GetFractionLost`. -/
def getFractionLost : Option UInt8 := p.fractionLost (gotoReport index)

/-- `GetLostPacketCount`. -/
def getLostPacketCount : Option Int32 := p.lostPacketCount (gotoReport index)

/-- `GetExtendedHighestSequenceNumber`. -/
def getExtendedHighestSequenceNumber : Option UInt32 := p.reportWord (gotoReport index) 8

/-- `GetJitter`. -/
def getJitter : Option UInt32 := p.reportWord (gotoReport index) 12

/-- `GetLSR`. -/
def getLSR : Option UInt32 := p.reportWord (gotoReport index) 16

/-- `GetDLSR`. -/
def getDLSR : Option UInt32 := p.reportWord (gotoReport index) 20

end RTCPRRPacket

/-! ## Sender reports -/

namespace RTCPSRPacket
variable (p : RTCPReportPacket)

/-- A field of 32 bits of the sender information. -/
def senderWord (field : UInt32) : Option UInt32 :=
  p.reportWord (UInt32.ofNat (sizeofCommonHeader + sizeofUint32)) field

/-- `GetNTPTimestamp`: the two words of the `RTPNTPTime`. -/
def getNTPTimestamp : Option (UInt32 × UInt32) := do
  let msw ← senderWord p 0
  let lsw ← senderWord p 4
  return (msw, lsw)

/-- `GetRTPTimestamp`. -/
def getRTPTimestamp : Option UInt32 := senderWord p 8

/-- `GetSenderPacketCount`. -/
def getSenderPacketCount : Option UInt32 := senderWord p 12

/-- `GetSenderOctetCount`. -/
def getSenderOctetCount : Option UInt32 := senderWord p 16

variable (index : Int32)

/-- `GotoReport`, as the offset in the packet. -/
def gotoReport : UInt32 :=
  UInt32.ofNat (sizeofCommonHeader + sizeofUint32 + sizeofSenderReport) +
    index.toUInt32 * UInt32.ofNat sizeofReceiverReport

/-- `GetSSRC`. -/
def getSSRC : Option UInt32 := p.reportWord (gotoReport index) 0

/-- `GetFractionLost`. -/
def getFractionLost : Option UInt8 := p.fractionLost (gotoReport index)

/-- `GetLostPacketCount`. -/
def getLostPacketCount : Option Int32 := p.lostPacketCount (gotoReport index)

/-- `GetExtendedHighestSequenceNumber`. -/
def getExtendedHighestSequenceNumber : Option UInt32 := p.reportWord (gotoReport index) 8

/-- `GetJitter`. -/
def getJitter : Option UInt32 := p.reportWord (gotoReport index) 12

/-- `GetLSR`. -/
def getLSR : Option UInt32 := p.reportWord (gotoReport index) 16

/-- `GetDLSR`. -/
def getDLSR : Option UInt32 := p.reportWord (gotoReport index) 20

end RTCPSRPacket

end RayionClient
