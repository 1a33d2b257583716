/-
  rtcpsdespacket.h — the class `RTCPSDESPacket`, which goes through the chunks and the
  items of a source description packet.

  Pointers into the packet are offsets, the null pointer is `none`.  A method has no
  result where it reads behind the `datalen` bytes of the packet.
-/
import RayionClient.Base.NetworkWord
import RayionClient.RTCPHeader

namespace RayionClient

open Base

/-- `RTCPSDESPacket::ItemType`. -/
inductive ItemType where
  | None
  | CNAME
  | NAME
  | EMAIL
  | PHONE
  | LOC
  | TOOL
  | NOTE
  | PRIV
  | Unknown
  deriving DecidableEq

/-- The members of the class; `data` is the `datalen` bytes of the packet. -/
structure RTCPSDESPacket where
  data : List UInt8
  knownformat : Bool
  currentchunk : Option ℕ
  curchunknum : ℤ
  itemoffset : ℕ

/-- `sizeof(RTCPSDESHeader)`: the identifier and the length of an item. -/
def sizeofSDESHeader : ℕ := 2

namespace RTCPSDESPacket
variable (p : RTCPSDESPacket)

/-- `GetChunkCount`. -/
def getChunkCount : Option ℤ := if !p.knownformat then some 0 else headerCount p.data

/-- `GotoFirstChunk`. -/
def gotoFirstChunk : Option (Bool × RTCPSDESPacket) := do
  let count ← p.getChunkCount
  if count = 0 then return (false, { p with currentchunk := none })
  return (true, { p with
    currentchunk := some sizeofCommonHeader, curchunknum := 1, itemoffset := sizeofUint32 })

/-- `while (sdeshdr->sdesid != 0)`, with at most `n` rounds left. -/
def skipItems (currentchunk : ℕ) : ℕ → ℕ → Option ℕ
  | 0, offset => do
    let sdesid ← p.data[currentchunk + offset]?
    if sdesid ≠ 0 then none else return offset
  | n + 1, offset => do
    let sdesid ← p.data[currentchunk + offset]?
    if sdesid ≠ 0 then
      let length ← p.data[currentchunk + offset + 1]?
      skipItems currentchunk n (offset + sizeofSDESHeader + length.toNat)
    else return offset

/-- `GotoNextChunk`. -/
def gotoNextChunk : Option (Bool × RTCPSDESPacket) :=
  if !p.knownformat then some (false, p)
  else
    match p.currentchunk with
    | none => some (false, p)
    | some currentchunk => do
      let count ← p.getChunkCount
      if p.curchunknum = count then return (false, p)
      let offset ← p.skipItems currentchunk p.data.length sizeofUint32
      let offset := offset + 1
      let offset := if offset &&& 3 ≠ 0 then offset + (4 - (offset &&& 3)) else offset
      return (true, { p with
        currentchunk := some (currentchunk + offset), curchunknum := p.curchunknum + 1
        itemoffset := sizeofUint32 })

/-- `GetChunkSSRC`. -/
def getChunkSSRC : Option UInt32 :=
  if !p.knownformat then some 0
  else
    match p.currentchunk with
    | none => some 0
    | some ssrc => wordAt p.data ssrc

/-- `GotoFirstItem`. -/
def gotoFirstItem : Option (Bool × RTCPSDESPacket) :=
  if !p.knownformat then some (false, p)
  else
    match p.currentchunk with
    | none => some (false, p)
    | some currentchunk => do
      let p := { p with itemoffset := sizeofUint32 }
      let sdesid ← p.data[currentchunk + p.itemoffset]?
      if sdesid = 0 then return (false, p)
      return (true, p)

/-- `GotoNextItem`. -/
def gotoNextItem : Option (Bool × RTCPSDESPacket) :=
  if !p.knownformat then some (false, p)
  else
    match p.currentchunk with
    | none => some (false, p)
    | some currentchunk => do
      let sdesid ← p.data[currentchunk + p.itemoffset]?
      if sdesid = 0 then return (false, p)
      let length ← p.data[currentchunk + p.itemoffset + 1]?
      let offset := p.itemoffset + sizeofSDESHeader + length.toNat
      let sdesid ← p.data[currentchunk + offset]?
      if sdesid = 0 then return (false, p)
      return (true, { p with itemoffset := offset })

/-- The `switch` of `GetItemType`. -/
def itemType (sdesid : UInt8) : ItemType :=
  match sdesid.toNat with
  | 0 => .None
  | 1 => .CNAME
  | 2 => .NAME
  | 3 => .EMAIL
  | 4 => .PHONE
  | 5 => .LOC
  | 6 => .TOOL
  | 7 => .NOTE
  | 8 => .PRIV
  | _ => .Unknown

/-- `GetItemType`. -/
def getItemType : Option ItemType :=
  if !p.knownformat then some .None
  else
    match p.currentchunk with
    | none => some .None
    | some currentchunk => do
      let sdesid ← p.data[currentchunk + p.itemoffset]?
      return itemType sdesid

/-- `None` is zero. -/
def getItemLength : Option ℕ :=
  if !p.knownformat then some 0
  else
    match p.currentchunk with
    | none => some 0
    | some currentchunk => do
      let sdesid ← p.data[currentchunk + p.itemoffset]?
      if sdesid = 0 then return 0
      let length ← p.data[currentchunk + p.itemoffset + 1]?
      return length.toNat

/-- `GetItemData`, as an offset in the packet. -/
def getItemData : Option (Option ℕ) :=
  if !p.knownformat then some none
  else
    match p.currentchunk with
    | none => some none
    | some currentchunk => do
      let sdesid ← p.data[currentchunk + p.itemoffset]?
      if sdesid = 0 then return none
      return some (currentchunk + p.itemoffset + sizeofSDESHeader)

/-- The beginning of the four methods for PRIV items: the lengths of the item and of its prefix,
    or nothing if there is no well-formed PRIV item. -/
def privLengths : Option (Option (ℕ × ℕ × ℕ)) :=
  if !p.knownformat then some none
  else
    match p.currentchunk with
    | none => some none
    | some currentchunk => do
      let sdesid ← p.data[currentchunk + p.itemoffset]?
      if sdesid ≠ 8 then return none
      let length ← p.data[currentchunk + p.itemoffset + 1]?
      if length = 0 then return none
      let preflen := currentchunk + p.itemoffset + sizeofSDESHeader
      let prefixlength ← p.data[preflen]?
      if prefixlength.toNat > length.toNat - 1 then return none
      return some (preflen, length.toNat, prefixlength.toNat)

/-- `GetPRIVPrefixLength`. -/
def getPRIVPrefixLength : Option ℕ :=
  p.privLengths.map fun
    | none => 0
    | some (_, _, prefixlength) => prefixlength

/-- `GetPRIVPrefixData`, as an offset in the packet. -/
def getPRIVPrefixData : Option (Option ℕ) :=
  p.privLengths.map fun
    | none => none
    | some (preflen, _, prefixlength) => if prefixlength = 0 then none else some (preflen + 1)

/-- `GetPRIVValueLength`. -/
def getPRIVValueLength : Option ℕ :=
  p.privLengths.map fun
    | none => 0
    | some (_, length, prefixlength) => length - prefixlength - 1

/-- `GetPRIVValueData`, as an offset in the packet. -/
def getPRIVValueData : Option (Option ℕ) :=
  p.privLengths.map fun
    | none => none
    | some (preflen, length, prefixlength) =>
      let valuelen := length - prefixlength - 1
      if valuelen = 0 then none else some (preflen + 1 + prefixlength)

/-- The bytes that a caller finds at a pointer, if they are bytes of the packet. -/
def read (ptr : Option ℕ) (length : ℕ) : Option (Option (List UInt8)) :=
  match ptr with
  | none => some none
  | some ptr =>
    if ptr + length ≤ p.data.length then some (some ((p.data.drop ptr).take length)) else none

end RTCPSDESPacket

/-! ## Calls -/

/-- The methods. -/
inductive SDESCall where
  | getChunkCount
  | gotoFirstChunk
  | gotoNextChunk
  | getChunkSSRC
  | gotoFirstItem
  | gotoNextItem
  | getItemType
  | getItem
  | getPRIVPrefix
  | getPRIVValue
  deriving DecidableEq

/-- What a call returns.  The data of an item, and its length, are looked at together. -/
inductive SDESResult where
  | count (n : ℤ)
  | bool (b : Bool)
  | ssrc (ssrc : UInt32)
  | type (type : ItemType)
  | bytes (length : ℕ) (data : Option (List UInt8))
  deriving DecidableEq

/-- One call. -/
def RTCPSDESPacket.perform (p : RTCPSDESPacket) : SDESCall → Option (SDESResult × RTCPSDESPacket)
  | .getChunkCount => p.getChunkCount.map fun n => (.count n, p)
  | .gotoFirstChunk => p.gotoFirstChunk.map fun (b, p) => (.bool b, p)
  | .gotoNextChunk => p.gotoNextChunk.map fun (b, p) => (.bool b, p)
  | .getChunkSSRC => p.getChunkSSRC.map fun ssrc => (.ssrc ssrc, p)
  | .gotoFirstItem => p.gotoFirstItem.map fun (b, p) => (.bool b, p)
  | .gotoNextItem => p.gotoNextItem.map fun (b, p) => (.bool b, p)
  | .getItemType => p.getItemType.map fun type => (.type type, p)
  | .getItem => do
    let length ← p.getItemLength
    let data ← p.read (← p.getItemData) length
    return (.bytes length data, p)
  | .getPRIVPrefix => do
    let length ← p.getPRIVPrefixLength
    let data ← p.read (← p.getPRIVPrefixData) length
    return (.bytes length data, p)
  | .getPRIVValue => do
    let length ← p.getPRIVValueLength
    let data ← p.read (← p.getPRIVValueData) length
    return (.bytes length data, p)

/-- The results of one call after the other. -/
def RTCPSDESPacket.performAll (p : RTCPSDESPacket) : List SDESCall → Option (List SDESResult)
  | [] => some []
  | call :: calls => do
    let (r, p) ← p.perform call
    return r :: (← p.performAll calls)

end RayionClient
