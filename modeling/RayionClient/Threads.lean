/-
  RayionClient.cpp — `main` and its two threads.

  `main` passes the threads pointers to its local variables, which point on into
  the `URIInfo` and the command line, so a thread reads what `main` holds at the
  time.  `clientStep` is one action of one thread; which thread is next, whether
  `CreateThread` succeeds and what `play` returns is up to the environment.
-/
import RayionClient.Base.Parallel
import RayionClient.Client
import RayionClient.DataAccess

namespace RayionClient

open Base

/-- `main` and the two threads that it creates. -/
inductive ThreadId where
  | main
  | rtspControl
  | rtpHandler
  deriving DecidableEq

/-- The parameters of the RTSP thread. -/
structure RtspParam where
  URI : CStr
  Port : ℤ
  RTPPort : ℤ
  socket : ℕ
  deriving DecidableEq

/-- The constructor; the buffer of `URI` is indeterminate, `socket` is -1 as an unsigned number. -/
def RtspParam.new (URI : CStr) (socket : ℕ) : RtspParam := ⟨URI, 554, rtpPort, socket⟩

/-- What the threads do. -/
inductive Action where
  | initURIInfo (flag : ℤ)
  | connect (server : SockaddrIn) (cnct : ℤ)
  | failedToConnect
  | createThread (thread : ThreadId) (started : Bool)
  | loop
  | initRTSPmsg (param : RtspParam)
  | play (flag : ℤ)
  | errorInPlaying
  | tick (timer : ℤ)
  | initRTPHandler (rtpPort : ℤ)
  | recvPackets (call : Call)
  | ret (thread : ThreadId)
  deriving DecidableEq

/-- The system the client runs on: libraries, and what indeterminate variables hold. -/
structure Platform (σ : Type) where
  inetPton : InetPton
  connect : ℕ → SockaddrIn → ℤ
  lib : RTPSession σ
  session : σ
  sk : Socket
  uri : CStr × (Fin 4 → ℤ) × ℤ
  iplong : ℕ → UInt32
  address : UInt32
  rtspPara : CStr × ℕ
  rtpPara : Fin 4 → ℤ

/-! ## `main` -/

/-- `main` before each of its actions. -/
inductive MainPc where
  | initURIInfo
  | connectServer
  | failed
  | ret
  | createRtsp
  | createRtp
  | loop
  | returned
  deriving DecidableEq

/-- The local variables of `main`; the parameters do not exist before their construction, nor
    after the return. -/
structure Main where
  pc : MainPc
  uri : URIInfo
  sk : Socket
  rtspPara : Option RtspParam
  rtpPara : Option RtpParam

section
variable {σ : Type} (P : Platform σ) (w : CStr)

/-- `main` when it begins. -/
def Main.entry : Main where
  pc := .initURIInfo
  uri := .new P.uri.1 P.uri.2.1 P.uri.2.2
  sk := P.sk
  rtspPara := none
  rtpPara := none

/-- `rtspPara`, as the RTSP thread gets it. -/
def mainRtspParam (rtspPara : RtspParam) (uri : URIInfo) (sk : Socket) : RtspParam :=
  { rtspPara with URI := w, Port := uri.getintPort, socket := sk.RTSPSocket }

/-- One action of `main` on the URI `w`; `started` is the outcome of a `CreateThread`.  The flag
    of `initURIInfo` and the handle of `CreateThread` are not looked at. -/
def mainStep (started : Bool) (m : Main) : Option (Action × Main) :=
  match m.pc with
  | .initURIInfo => do
    let (flag, uri) ← (initURIInfo P.inetPton P.iplong w m.uri).out
    return (.initURIInfo flag, { m with uri := uri, pc := .connectServer })
  | .connectServer =>
    let sk := mainSocket m.sk m.uri
    let cnct := sk.connectServer P.inetPton P.connect P.address
    some (.connect (sk.serverAddr P.inetPton P.address) cnct, { m with
      sk := sk, pc := if cnct ≠ 0 then .failed else .createRtsp })
  | .failed => some (.failedToConnect, { m with pc := .ret })
  | .ret => some (.ret .main, { m with rtspPara := none, rtpPara := none, pc := .returned })
  | .createRtsp =>
    some (.createThread .rtspControl started, { m with
      rtspPara := some (mainRtspParam w (.new P.rtspPara.1 P.rtspPara.2) m.uri m.sk)
      pc := .createRtp })
  | .createRtp =>
    some (.createThread .rtpHandler started, { m with
      rtpPara := some (mainRtpParam (.new P.rtpPara) m.uri)
      pc := .loop })
  | .loop => some (.loop, m)
  | .returned => none

end

/-! ## `rtspControl` -/

/-- `rtspControl` before each of its actions; `timer` is a local variable. -/
inductive Rtsp where
  | initRTSPmsg
  | play
  | failed
  | loop (timer : ℤ)
  | ret
  | returned
  deriving DecidableEq

/-- One action of `rtspControl`; `flag` is what `play` returns.  A `timer++` that overflows is
    undefined. -/
def rtspStep (param : RtspParam) (flag : ℤ) : Rtsp → Option (Action × Rtsp)
  | .initRTSPmsg => some (.initRTSPmsg param, .play)
  | .play => some (.play flag, if flag ≠ 200 then .failed else .loop 0)
  | .failed => some (.errorInPlaying, .ret)
  | .loop timer =>
    if timer + 1 < 2 ^ 31 then
      let timer := if timer + 1 > 100000 then 0 else timer + 1
      some (.tick timer, .loop timer)
    else none
  | .ret => some (.ret .rtspControl, .returned)
  | .returned => none

/-! ## `rtpHandler` -/

/-- The RTP thread: before `initRTPHandler`, in `recvPackets`, and after its return. -/
inductive Rtp (σ : Type) where
  | initRTPHandler
  | recvPackets (rtpPort : ℤ) (f : Frame σ)
  | returned

/-- One action of the RTP thread.  The handler keeps the port, and reads the address where
    `param` points to. -/
def rtpStep {σ : Type} (P : Platform σ) (param : RtpParam) : Rtp σ → Option (Action × Rtp σ)
  | .initRTPHandler =>
    some (.initRTPHandler param.RTPPort, .recvPackets param.RTPPort (.entry P.session))
  | .recvPackets rtpPort f =>
    if f.pc = .returned then some (.ret .rtpHandler, .returned)
    else (recvStep P.lib (initRTPHandler param.IPAddr rtpPort) f).map fun (call, f) =>
      (.recvPackets call, .recvPackets rtpPort f)
  | .returned => none

/-! ## The client -/

/-- `main`, and the threads that have been created. -/
structure Client (σ : Type) where
  main : Main
  rtsp : Option Rtsp
  rtp : Option (Rtp σ)

/-- What the environment decides: who is next, and what the call returns. -/
inductive Turn where
  | main (started : Bool)
  | rtspControl (flag : ℤ)
  | rtpHandler

section
variable {σ : Type} (P : Platform σ) (w : CStr)

/-- Only `main` exists. -/
def Client.entry : Client σ := ⟨.entry P, none, none⟩

/-- The RTP thread reads the four integers in the `URIInfo`. -/
def Main.rtpParam (m : Main) : Option RtpParam :=
  m.rtpPara.map fun param => { param with IPAddr := m.uri.getIPAddr }

/-- A thread that has been created is at its beginning. -/
def Client.create (c : Client σ) : Action → Client σ
  | .createThread .rtspControl true => { c with rtsp := some .initRTSPmsg }
  | .createThread .rtpHandler true => { c with rtp := some .initRTPHandler }
  | _ => c

/-- One action of one thread.  There is none if a thread uses parameters that do not exist. -/
def clientStep (c : Client σ) : Turn → Option (Action × Client σ)
  | .main started => do
    let (a, m) ← mainStep P w started c.main
    return (a, { c with main := m }.create a)
  | .rtspControl flag => do
    let r ← c.rtsp
    let param ← c.main.rtspPara
    let (a, r) ← rtspStep param flag r
    return (a, { c with rtsp := some r })
  | .rtpHandler => do
    let r ← c.rtp
    let param ← c.main.rtpParam
    let (a, r) ← rtpStep P param r
    return (a, { c with rtp := some r })

/-- **The runs of the client** on the URI `w`. -/
abbrev ClientRun : List Action → Client σ → Prop :=
  Run (fun c a c' => ∃ turn, clientStep P w c turn = some (a, c')) (.entry P)

end

end RayionClient
