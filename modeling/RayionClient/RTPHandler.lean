/-
  RTPHandler.cpp — the thread that receives RTP packets and appends their
  payloads to a file.

  `recvPackets` never returns, so it is a machine: one step for each call it
  makes, and a program counter that names the next one.  The session object of
  jrtplib is a parameter, any functions on any type of states (`RTPSession`).
  Local variables are `none` while they are indeterminate.

  A packet pointer carries the number of the `GetNextPacket` call that returned
  it, which tells packets apart that have had the same address.
-/
import RayionClient.Base.Machine
import RayionClient.Base.Word

namespace RayionClient

open Base

/-! ## What jrtplib provides -/

/-- `RTPIPv4Address`, in host byte order. -/
structure RTPIPv4Address where
  ip : UInt32
  port : UInt16
  deriving DecidableEq

/-- The constructor from four bytes. -/
def RTPIPv4Address.ofBytes (ip : Bytes4) (port : UInt16) : RTPIPv4Address := ⟨packBE ip, port⟩

/-- `RTPTime`: seconds and microseconds. -/
structure RTPTime where
  sec : UInt32
  microsec : UInt32
  deriving DecidableEq

/-- `operator-=`. -/
def RTPTime.sub (a t : RTPTime) : RTPTime :=
  let sec := a.sec - t.sec
  if t.microsec > a.microsec then ⟨sec - 1, a.microsec + 1000000 - t.microsec⟩
  else ⟨sec, a.microsec - t.microsec⟩

/-- The payload of a packet: it came in one UDP datagram. -/
structure Payload where
  bytes : List UInt8
  udp : bytes.length ≤ 65535
  deriving DecidableEq

/-- `RTPPacket`, with its source and its payload. -/
structure RTPPacket where
  ssrc : UInt32
  payload : Payload
  deriving DecidableEq

/-- A pointer to a packet, with its number among those returned. -/
structure Packet where
  serial : ℕ
  packet : RTPPacket
  deriving DecidableEq

namespace Packet

/-- The bytes that `GetPayloadData` points to. -/
def payload (packet : Packet) : List UInt8 := packet.packet.payload.bytes

/-- A `size_t`. -/
def getPayloadLength (packet : Packet) : UInt32 := UInt32.ofNat packet.payload.length

end Packet

/-- A pointer to characters: into `new char[BUF_SIZE]`, or into the payload of a packet. -/
inductive CharPtr where
  | buf (offset : ℕ)
  | payload (packet : Packet) (offset : ℕ)
  deriving DecidableEq

/-- `buf + n` -/
def CharPtr.add : CharPtr → ℕ → CharPtr
  | buf offset, k => buf (offset + k)
  | payload packet offset, k => payload packet (offset + k)

/-- The methods of `RTPSession` that the loop calls, and the clock. -/
structure RTPSession (σ : Type) where
  beginDataAccess : σ → σ
  gotoFirstSourceWithData : σ → Bool × σ
  gotoNextSourceWithData : σ → Bool × σ
  getNextPacket : σ → Option RTPPacket × σ
  deletePacket : Packet → σ → σ
  endDataAccess : σ → σ
  currentTime : σ → RTPTime × σ

/-! ## The calls -/

/-- The calls that a run makes, with the results of those that return one. -/
inductive Call where
  | addDestination (addr : RTPIPv4Address)
  | currentTime (t : RTPTime)
  | createFile
  | beginDataAccess
  | gotoFirstSourceWithData (found : Bool)
  | gotoNextSourceWithData (found : Bool)
  | getNextPacket (packet : Option Packet)
  | getPayloadData (packet : Packet)
  | getPayloadLength (packet : Packet)
  | writeFile (buf : CharPtr) (count : UInt32)
  | deletePacket (packet : Packet)
  | endDataAccess
  | byeDestroy
  deriving DecidableEq

/-- `FileBuf = (char *)recvdata + 4; WriteFile(hFile, FileBuf, length - 4, &ReadSize, NULL)`. -/
def payloadWrite (recvdata : CharPtr) (length : Int32) : Call :=
  .writeFile (recvdata.add 4) (length - 4).toUInt32

/-- `RTPBuffer::WriteBuffer`, which the loop once used. -/
def writeBuffer (tmp : CharPtr) (length : Int32) : Call := .writeFile tmp (length - 4).toUInt32

/-! ## `RTPHandler` -/

/-- The bytes of `Buf`. -/
def bufSize : ℕ := 8192

/-- `RTPHandler`: where the packets come from. -/
structure RTPHandler where
  IPAddr : Fin 4 → ℤ
  Port : ℤ

/-- `initRTPHandler`. -/
def initRTPHandler (address : Fin 4 → ℤ) (rtpPort : ℤ) : RTPHandler where
  IPAddr := address
  Port := rtpPort

/-- `uint8_t localip[] = { IPAddr[0], IPAddr[1], IPAddr[2], IPAddr[3] }`. -/
def RTPHandler.localip (h : RTPHandler) : Bytes4 := fun j => UInt8.ofInt (h.IPAddr j)

/-- The destination that `recvPackets` adds. -/
def RTPHandler.addr (h : RTPHandler) : RTPIPv4Address := .ofBytes h.localip (UInt16.ofInt h.Port)

/-- The next call of `recvPackets`; `loop` is the test `while (!done)`. -/
inductive Pc where
  | addDestination
  | starttime
  | createFile
  | loop
  | gotoFirst
  | getNextPacket
  | getPayloadData
  | getPayloadLength
  | writeFile
  | deletePacket
  | gotoNext
  | endDataAccess
  | currentTime
  | returned
  deriving DecidableEq

/-- The local variables of `recvPackets`, and the state of the session.  `received` counts the
    packets returned so far. -/
structure Frame (σ : Type) where
  pc : Pc
  session : σ
  received : ℕ
  recvdata : Option CharPtr
  starttime : Option RTPTime
  done : Bool
  FileBuf : Option CharPtr
  length : Option Int32
  packet : Option Packet
  t : Option RTPTime

section
variable {σ : Type} (lib : RTPSession σ) (h : RTPHandler)

/-- The local variables of `recvPackets` when it begins. -/
def Frame.entry (session : σ) : Frame σ where
  pc := .addDestination
  session := session
  received := 0
  recvdata := none
  starttime := none
  done := false
  FileBuf := none
  length := none
  packet := none
  t := none

/-- One call of `recvPackets`.  There is none after the return, and none if an indeterminate or
    a null pointer would be used. -/
def recvStep (f : Frame σ) : Option (Call × Frame σ) :=
  match f.pc with
  | .addDestination => some (.addDestination h.addr, { f with pc := .starttime })
  | .starttime =>
    let (now, session) := lib.currentTime f.session
    some (.currentTime now, { f with
      session := session, starttime := some now, done := false, pc := .createFile })
  | .createFile => some (.createFile, { f with FileBuf := some (.buf 0), pc := .loop })
  | .loop =>
    if f.done then some (.byeDestroy, { f with pc := .returned })
    else some (.beginDataAccess, { f with
      session := lib.beginDataAccess f.session, pc := .gotoFirst })
  | .gotoFirst =>
    let (found, session) := lib.gotoFirstSourceWithData f.session
    some (.gotoFirstSourceWithData found, { f with
      session := session, pc := if found then .getNextPacket else .endDataAccess })
  | .getNextPacket =>
    match lib.getNextPacket f.session with
    | (some packet, session) =>
      some (.getNextPacket (some ⟨f.received, packet⟩), { f with
        session := session, received := f.received + 1,
        packet := some ⟨f.received, packet⟩, pc := .getPayloadData })
    | (none, session) =>
      some (.getNextPacket none, { f with
        session := session, packet := none, pc := .gotoNext })
  | .getPayloadData => do
    let packet ← f.packet
    return (.getPayloadData packet, { f with
      recvdata := some (.payload packet 0), pc := .getPayloadLength })
  | .getPayloadLength => do
    let packet ← f.packet
    return (.getPayloadLength packet, { f with
      length := some packet.getPayloadLength.toInt32, pc := .writeFile })
  | .writeFile => do
    let recvdata ← f.recvdata
    let length ← f.length
    return (payloadWrite recvdata length, { f with
      FileBuf := some (recvdata.add 4), pc := .deletePacket })
  | .deletePacket => do
    let packet ← f.packet
    return (.deletePacket packet, { f with
      session := lib.deletePacket packet f.session, pc := .getNextPacket })
  | .gotoNext =>
    let (found, session) := lib.gotoNextSourceWithData f.session
    some (.gotoNextSourceWithData found, { f with
      session := session, pc := if found then .getNextPacket else .endDataAccess })
  | .endDataAccess =>
    some (.endDataAccess, { f with session := lib.endDataAccess f.session, pc := .currentTime })
  | .currentTime => do
    let (now, session) := lib.currentTime f.session
    let starttime ← f.starttime
    return (.currentTime now, { f with
      session := session, t := some (now.sub starttime), pc := .loop })
  | .returned => none

/-- **The runs of `recvPackets`**, from its call on. -/
abbrev RecvRun (session : σ) : List Call → Frame σ → Prop :=
  Run (fun f call f' => recvStep lib h f = some (call, f')) (.entry session)

end

/-! ## The bytes written -/

/-- The bytes a `WriteFile` reads lie in the object its pointer points into. -/
def Call.InBounds : Call → Prop
  | writeFile (.buf offset) count => offset + count.toNat ≤ bufSize
  | writeFile (.payload packet offset) count => offset + count.toNat ≤ packet.payload.length
  | _ => True

/-- The bounds can be computed. -/
instance (call : Call) : Decidable call.InBounds := by
  unfold Call.InBounds; split <;> infer_instance

theorem Packet.getPayloadLength_toNat (packet : Packet) :
    packet.getPayloadLength.toNat = packet.payload.length := by
  have h := packet.packet.payload.udp
  rw [getPayloadLength, UInt32.toNat_ofNat_of_lt']
  exact Nat.lt_of_le_of_lt h (by decide)

/-- What the loop writes of a packet. -/
theorem payloadWrite_eq (packet : Packet) :
    payloadWrite (.payload packet 0) packet.getPayloadLength.toInt32 =
      .writeFile (.payload packet 4) (packet.getPayloadLength - 4) := by
  have h4 : Int32.toUInt32 4 = 4 := rfl
  rw [payloadWrite, Int32.toUInt32_sub, UInt32.toUInt32_toInt32, h4]
  rfl

/-- The byte count is the number of bytes after the fourth one, unless there are fewer than
    four bytes: then it wraps around. -/
theorem count_toNat (packet : Packet) :
    (packet.getPayloadLength.toInt32 - 4).toUInt32.toNat =
      if 4 ≤ packet.payload.length then packet.payload.length - 4
      else 2 ^ 32 - 4 + packet.payload.length := by
  have h := packet.getPayloadLength_toNat
  have hudp : packet.payload.length ≤ 65535 := packet.packet.payload.udp
  have h4 : (Int32.toUInt32 4).toNat = 4 := rfl
  rw [Int32.toUInt32_sub, UInt32.toUInt32_toInt32, UInt32.toNat_sub, h, h4]
  split_ifs <;> omega

/-- **When the bytes written are bytes of the payload**, in the loop and in `WriteBuffer`. -/
theorem payloadWrite_inBounds_iff (packet : Packet) :
    ((payloadWrite (.payload packet 0) packet.getPayloadLength.toInt32).InBounds ↔
        4 ≤ packet.payload.length) ∧
      ((writeBuffer ((CharPtr.payload packet 0).add 4) packet.getPayloadLength.toInt32).InBounds ↔
        4 ≤ packet.payload.length) := by
  have key : 0 + 4 + (packet.getPayloadLength.toInt32 - 4).toUInt32.toNat ≤ packet.payload.length ↔
      4 ≤ packet.payload.length := by
    rw [count_toNat]
    split_ifs <;> omega
  exact ⟨key, key⟩

/-- A payload of three bytes. -/
def shortPacket : Packet := ⟨0, 0, [1, 2, 3], by decide⟩

theorem shortPacket_out_of_bounds :
    ¬ (payloadWrite (.payload shortPacket 0) shortPacket.getPayloadLength.toInt32).InBounds ∧
      ¬ (writeBuffer ((CharPtr.payload shortPacket 0).add 4)
        shortPacket.getPayloadLength.toInt32).InBounds := by
  decide

end RayionClient
