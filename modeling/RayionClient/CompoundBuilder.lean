/-
  rtcpcompoundpacketbuilder.h — the classes `SDESSource`, `SDES` and `Report`, in which
  `RTCPCompoundPacketBuilder` collects what a packet is built from, and the bytes needed.

  A buffer is the list of its bytes.  The iterator `sdesit` is the position of a source,
  `none` where it is at no source: at the end, or at a source that has been deleted.
  A method has no result where it would use such an iterator.
-/
import RayionClient.Errors
import RayionClient.ReportPacket
import RayionClient.SDESPacket

namespace RayionClient

open Base

/-- `ERR_RTP_RTCPCOMPPACKBUILDER_NOCURRENTSOURCE` -/
def noCurrentSource : ℤ := -40

/-- The number of packets for `n` report blocks or chunks: at most 31 in each. -/
def packetCount (n : ℕ) : ℕ :=
  let d := n / 31
  let r := n % 31
  if r ≠ 0 then d + 1 else d

/-! ## A source -/

/-- `SDESSource`: its items, with their total size. -/
structure SDESSource where
  ssrc : UInt32
  items : List (List UInt8)
  totalitemsize : ℕ
  deriving DecidableEq

namespace SDESSource

/-- The constructor. -/
def new (s : UInt32) : SDESSource := ⟨s, [], 0⟩

/-- The size of a chunk whose items, with the zero byte behind them, take `x` bytes. -/
def chunkSize (x : ℕ) : ℕ :=
  let r := x % sizeofUint32
  let x := if r ≠ 0 then x + (sizeofUint32 - r) else x
  x + sizeofUint32

variable (s : SDESSource)

/-- `SDESSource::NeededBytes`. -/
def neededBytes : ℕ := chunkSize (s.totalitemsize + 1)

/-- `SDESSource::NeededBytesWithExtraItem`. -/
def neededBytesWithExtraItem (itemdatalength : UInt8) : ℕ :=
  chunkSize (s.totalitemsize + sizeofSDESHeader + itemdatalength.toNat + 1)

/-- `SDESSource::AddItem`. -/
def addItem (buf : List UInt8) : SDESSource :=
  { s with items := s.items ++ [buf], totalitemsize := s.totalitemsize + buf.length }

end SDESSource

/-! ## All sources -/

/-- `SDES`: the sources, and an iterator. -/
structure SDES where
  sdessources : List SDESSource
  sdesit : Option ℕ
  deriving DecidableEq

namespace SDES

/-- The constructor. -/
def new : SDES := ⟨[], none⟩

/-- The source of the iterator is deleted with the others. -/
def clear (_ : SDES) : SDES := ⟨[], none⟩

variable (s : SDES)

/-- `allocated`: whether there was memory for the source. -/
def addSSRC (ssrc : UInt32) (allocated : Bool) : ℤ × SDES :=
  if !allocated then (outOfMem, s)
  else
    let sdessources := s.sdessources ++ [SDESSource.new ssrc]
    (0, ⟨sdessources, some (sdessources.length - 1)⟩)

/-- `SDES::AddItem`, to the source of the iterator. -/
def addItem (buf : List UInt8) : Option (ℤ × SDES) :=
  if s.sdessources = [] then some (noCurrentSource, s)
  else do
    let i ← s.sdesit
    let source ← s.sdessources[i]?
    return (0, { s with sdessources := s.sdessources.set i (source.addItem buf) })

/-- `SDES::NeededBytes`. -/
def neededBytes : ℕ :=
  if s.sdessources = [] then 0
  else
    (s.sdessources.map SDESSource.neededBytes).sum +
      packetCount s.sdessources.length * sizeofCommonHeader

/-- `SDES::NeededBytesWithExtraItem`. -/
def neededBytesWithExtraItem (itemdatalength : UInt8) : Option ℕ :=
  if s.sdessources = [] then some 0
  else do
    let i ← s.sdesit
    let source ← s.sdessources[i]?
    return ((s.sdessources.take i).map SDESSource.neededBytes).sum +
      source.neededBytesWithExtraItem itemdatalength +
      packetCount s.sdessources.length * sizeofCommonHeader

/-- `SDES::NeededBytesWithExtraSource`. -/
def neededBytesWithExtraSource : ℕ :=
  if s.sdessources = [] then 0
  else
    (s.sdessources.map SDESSource.neededBytes).sum + sizeofUint32 * 2 +
      packetCount (s.sdessources.length + 1) * sizeofCommonHeader

end SDES

/-! ## The report -/

/-- `Report`: its header, and a buffer for each block. -/
structure Report where
  isSR : Bool
  headerlength : ℕ
  reportblocks : List (List UInt8)

namespace Report
variable (rep : Report)

/-- The size of packets with `n` blocks. -/
def blocksSize (n : ℕ) : ℕ :=
  let x := n * sizeofReceiverReport
  let x := x + packetCount n * (sizeofCommonHeader + sizeofUint32)
  if rep.isSR then x + sizeofSenderReport else x

/-- `Report::NeededBytes`. -/
def neededBytes : ℕ :=
  let n := rep.reportblocks.length
  if n = 0 then
    if rep.headerlength = 0 then 0 else sizeofCommonHeader + rep.headerlength
  else rep.blocksSize n

/-- `Report::NeededBytesWithExtraReportBlock`. -/
def neededBytesWithExtraReportBlock : ℕ := rep.blocksSize (rep.reportblocks.length + 1)

end Report

/-! ## Calls -/

/-- The calls that change the sources.  An item is given with its identifier and its length. -/
inductive SDESBuild where
  | clear
  | addSSRC (ssrc : UInt32) (allocated : Bool)
  | addItem (r : Record)

namespace SDES

/-- One call, with the error code that it returns. -/
def build (s : SDES) : SDESBuild → Option (ℤ × SDES)
  | .clear => some (0, s.clear)
  | .addSSRC ssrc allocated => some (s.addSSRC ssrc allocated)
  | .addItem r => s.addItem r.bytes

/-- One call after the other. -/
def buildAll (s : SDES) : List SDESBuild → Option (List ℤ × SDES)
  | [] => some ([], s)
  | call :: calls => do
    let (status, s) ← s.build call
    let (statuses, s) ← s.buildAll calls
    return (status :: statuses, s)

end SDES

end RayionClient
