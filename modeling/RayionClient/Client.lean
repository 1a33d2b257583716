/-
  RayionClient.cpp — how `main` hands the parsed endpoint on.

  The socket gets the texts, the RTP thread gets the numbers.  Both reach the
  same host (`History.sameHost`).
-/
import RayionClient.History
import RayionClient.RTPHandler
import RayionClient.WinSock

namespace RayionClient

open Base

/-- `RTP_PORT`. -/
def rtpPort : ℤ := 55778

/-- The parameters of the RTP thread. -/
structure RtpParam where
  IPAddr : Fin 4 → ℤ
  Port : ℤ
  RTPPort : ℤ

/-- The constructor leaves the four integers indeterminate. -/
def RtpParam.new (IPAddr : Fin 4 → ℤ) : RtpParam := ⟨IPAddr, 554, rtpPort⟩

/-- `sk.initWinsock(uri.GetDotIPAddr(), uri.GetstrPort())`. -/
def mainSocket (sk : Socket) (uri : URIInfo) : Socket :=
  (sk.initWinsock uri.getDotIPAddr uri.getstrPort).2

/-- `rtpPara`, as the RTP thread gets it. -/
def mainRtpParam (rtpPara : RtpParam) (uri : URIInfo) : RtpParam :=
  { rtpPara with IPAddr := uri.getIPAddr, Port := uri.getintPort }

/-- The RTP thread, up to `recvPackets`. -/
def rtpHandler (param : RtpParam) : RTPHandler := initRTPHandler param.IPAddr param.RTPPort

section
variable {σ : Type} {lib : RTPSession σ} {h : RTPHandler} {session : σ} {tr : List Call}
  {f : Frame σ}

/-- The first call of `recvPackets` adds a destination. -/
theorem RecvRun.first (lib : RTPSession σ) (h : RTPHandler) (session : σ) :
    RecvRun lib h session [.addDestination h.addr]
      { Frame.entry session with pc := .starttime } := Run.start.snoc rfl

/-- The only destination that `recvPackets` adds is made of the four integers. -/
theorem RecvRun.addr_eq {addr : RTPIPv4Address} (hrun : RecvRun lib h session tr f)
    (hmem : .addDestination addr ∈ tr) : addr = h.addr := by
  obtain ⟨pre, post, heq⟩ := List.append_of_mem hmem
  obtain ⟨m, m', -, hs⟩ := hrun.at_split heq
  rw [recvStep] at hs
  cases hpc : m.pc with
  | addDestination =>
    simp only [hpc] at hs
    cases hs; rfl
  | loop =>
    simp only [hpc] at hs
    split_ifs at hs <;> cases hs
  | getNextPacket =>
    simp only [hpc] at hs
    split at hs <;> cases hs
  | _ => simp [hpc, payloadWrite, Option.bind_eq_some_iff] at hs

end

/-! ## The host -/

/-- Narrowing undoes the widening of a byte. -/
theorem ofInt_toNat (b : UInt8) : UInt8.ofInt (b.toNat : ℤ) = b := by
  have hb : (b.toNat : ℤ) % 2 ^ 8 = b.toNat :=
    Int.emod_eq_of_lt (by omega) (by have := b.toNat_lt; omega)
  rw [UInt8.ofInt, hb, Int.toNat_natCast, UInt8.ofNat_toNat]

section
variable {inetPton : InetPton} {q : Bytes4}

/-- The address of the connection, in host byte order. -/
theorem ntohl_sin_addr {sk : Socket} (hq : inetPton sk.IPAddr = some q) (address : UInt32) :
    ntohl (sk.serverAddr inetPton address).sin_addr = loadBE q := by
  change ntohl (addrWord inetPton sk.IPAddr address) = loadBE q
  rw [addrWord, hq]; exact ntohl_loadLE q

/-- The address of the RTP destination, in host byte order. -/
theorem addr_ip {h : RTPHandler} (hq : h.IPAddr = intOctets q) : h.addr.ip = loadBE q := by
  have hlocal : h.localip = q := by
    funext j
    rw [RTPHandler.localip, hq]; exact ofInt_toNat (q j)
  change packBE h.localip = loadBE q
  rw [hlocal, packBE_eq]

/-- **Both connections go to the same host.** -/
theorem History.sameHost {ws : List CStr} {logs : List (List Ev)} {info : URIInfo}
    (h : History inetPton ws logs info) (hv : ∃ log ∈ logs, colons log ≠ [])
    (hq : inetPton info.getDotIPAddr = some q) (sk : Socket) (address : UInt32)
    (rtpPara : RtpParam) :
    ntohl ((mainSocket sk info).serverAddr inetPton address).sin_addr =
        (rtpHandler (mainRtpParam rtpPara info)).addr.ip ∧
      ∀ (σ : Type) (lib : RTPSession σ) (session : σ) (tr : List Call) (f : Frame σ),
        RecvRun lib (rtpHandler (mainRtpParam rtpPara info)) session tr f →
        ∀ addr, .addDestination addr ∈ tr →
          addr.ip = ntohl ((mainSocket sk info).serverAddr inetPton address).sin_addr := by
  obtain ⟨last, hlast⟩ := exists_lastVisit hv
  obtain ⟨hagree, -⟩ := h.of_lastVisit hlast
  have htcp : ntohl ((mainSocket sk info).serverAddr inetPton address).sin_addr = loadBE q :=
    ntohl_sin_addr hq address
  have hrtp : (rtpHandler (mainRtpParam rtpPara info)).addr.ip = loadBE q :=
    addr_ip (hagree.IPAddr q hq)
  refine ⟨htcp.trans hrtp.symm, ?_⟩
  intro σ lib session tr f hrun addr hmem
  rw [RecvRun.addr_eq hrun hmem, hrtp, htcp]

end

/-- `recvPackets` adds the host of the connection, with any session. -/
theorem sameHost_liveURI : ∃ log info, History strictInetPton [liveURI] [log] info ∧
    ntohl ((mainSocket ⟨0, [], []⟩ info).serverAddr strictInetPton 0).sin_addr =
      (rtpHandler (mainRtpParam (.new 0) info)).addr.ip ∧
    ∀ (σ : Type) (lib : RTPSession σ) (session : σ), ∃ addr f,
      RecvRun lib (rtpHandler (mainRtpParam (.new 0) info)) session [.addDestination addr] f ∧
      addr.ip = ntohl ((mainSocket ⟨0, [], []⟩ info).serverAddr strictInetPton 0).sin_addr := by
  obtain ⟨log, info, h, hcolons, hinfo⟩ := liveURI_history
  have hdot : info.getDotIPAddr = dottedQuad ![192, 168, 1, 115] := by
    rw [show info.getDotIPAddr = info.endpoint.dotIPAddr from rfl, hinfo]; rfl
  have hq : strictInetPton info.getDotIPAddr = some ![192, 168, 1, 115] := by
    rw [hdot]; exact strictInetPton_lawful.quad _
  obtain ⟨hhost, hdest⟩ :=
    h.sameHost ⟨log, by simp, by simp [hcolons]⟩ hq ⟨0, [], []⟩ 0 (.new 0)
  refine ⟨log, info, h, hhost, ?_⟩
  intro σ lib session
  have hrun := RecvRun.first lib (rtpHandler (mainRtpParam (.new 0) info)) session
  exact ⟨_, _, hrun, hdest σ lib session _ _ hrun _ (List.mem_singleton_self _)⟩

end RayionClient
