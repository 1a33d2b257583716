/-
  What holds in every run of the client, whatever the schedule.

  * `ClientRun.obeysProtocol`: the RTP thread obeys the data-access protocol, and
    receives nothing before the connection stands.
  * `ClientRun.progress`: no thread gets stuck, and `main` does not return once
    there are others.
  * `ClientRun.endpoint`: all three parties are told the endpoint that the URI names.
-/
import RayionClient.Scripts

namespace RayionClient

open Base

/-! ## What a script says -/

section
variable {σ : Type} {P : Platform σ} {w : CStr} {info : URIInfo} {flag : ℤ} {tr : List Action}
  {c : Client σ}

theorem mem_part {a : Action} (thread : ThreadId) (ha : a ∈ tr) (hown : a.owner = thread) :
    a ∈ tr.filter (·.owner = thread) := List.mem_filter.2 ⟨ha, by simpa using hown⟩

namespace Scripted

theorem connect_eq (h : Scripted P w flag info tr) {server : SockaddrIn} {cnct : ℤ}
    (ha : .connect server cnct ∈ tr) : server = P.server info ∧ cnct = P.cnct info := by
  obtain ⟨rtsp, rtp, n, hpre⟩ := h.main
  have hmem := hpre.subset (mem_part .main ha rfl)
  by_cases h0 : P.cnct info = 0
  · simpa [mainScript, h0] using hmem
  · simpa [mainScript, h0] using hmem

theorem initRTSPmsg_eq (h : Scripted P w flag info tr) {param : RtspParam}
    (ha : .initRTSPmsg param ∈ tr) : param = P.rtspParam w info := by
  obtain ⟨flag', n, hpre⟩ := h.rtspControl
  have hmem := hpre.subset (mem_part .rtspControl ha rfl)
  by_cases h0 : flag' = 200
  · simpa [rtspScript, ticks, h0] using hmem
  · simpa [rtspScript, h0] using hmem

/-- What `recvPackets` does in a trace. -/
theorem exists_recvRun (h : Scripted P w flag info tr) {call : Call}
    (ha : .recvPackets call ∈ tr) : ∃ calls f,
      RecvRun P.lib (RayionClient.rtpHandler (P.rtpParam info)) P.session calls f ∧
        call ∈ calls := by
  have hmem := mem_part .rtpHandler ha rfl
  rcases h.rtpHandler with hnil | ⟨calls, f, hrun, heq⟩
  · rw [hnil] at hmem; cases hmem
  · refine ⟨calls, f, hrun, ?_⟩
    rw [heq] at hmem
    simpa using hmem

/-- Threads are created on a connection. -/
theorem connect_mem (h : Scripted P w flag info tr) {thread : ThreadId}
    (ha : .createThread thread true ∈ tr) : .connect (P.server info) 0 ∈ tr := by
  obtain ⟨rtsp, rtp, n, hpre⟩ := h.main
  have hmem := mem_part .main ha rfl
  by_cases h0 : P.cnct info = 0
  · rw [mainScript, if_neg (not_not.2 h0), h0] at hpre
    -- the creation is not among the first two actions of `main`
    rcases hpart : tr.filter (·.owner = .main) with _ | ⟨a₁, _ | ⟨a₂, part⟩⟩
    · rw [hpart] at hmem; cases hmem
    · rw [hpart] at hmem hpre
      obtain rfl : a₁ = .initURIInfo flag := by simpa using hpre
      simp at hmem
    · rw [hpart] at hpre
      have hsecond : a₂ = .connect (P.server info) 0 := by
        simp only [List.cons_append, List.cons_prefix_cons] at hpre
        exact hpre.2.1
      have hin : a₂ ∈ tr.filter (·.owner = .main) := by simp [hpart]
      exact hsecond ▸ (List.mem_filter.1 hin).1
  · rw [mainScript_failed h0] at hpre
    simpa using hpre.subset hmem

end Scripted

/-! ## What follows for every schedule -/

/-- Nothing happens after an `initURIInfo` that has no defined result. -/
theorem ClientRun.parses (hrun : ClientRun P w tr c) (htr : tr ≠ []) :
    ∃ flag info,
      (initURIInfo P.inetPton P.iplong w (Main.entry P).uri).out = some (flag, info) := by
  cases hout : (initURIInfo P.inetPton P.iplong w (Main.entry P).uri).out with
  | some x => exact ⟨x.1, x.2, rfl⟩
  | none =>
    have hstart : tr = [] ∧ c = .entry P := by
      refine hrun.inv (I := fun tr c => tr = [] ∧ c = .entry P) ⟨rfl, rfl⟩ ?_
      rintro tr c a c' ⟨rfl, rfl⟩ ⟨turn, hs⟩
      cases turn with
      | main started =>
        obtain ⟨m, hm, -⟩ := Client.Inv.main_turn.1 hs
        change ((initURIInfo P.inetPton P.iplong w (Main.entry P).uri).out >>= _) = _ at hm
        rw [hout] at hm; cases hm
      | _ => cases hs
    exact absurd hstart.1 htr

/-- The calls of `recvPackets`. -/
def recvCalls (tr : List Action) : List Call := tr.filterMap fun
  | .recvPackets call => some call
  | _ => none

theorem recvCalls_part (tr : List Action) :
    recvCalls (tr.filter (·.owner = .rtpHandler)) = recvCalls tr := by
  induction tr with
  | nil => rfl
  | cons a tr ih =>
    cases a with
    | ret thread => cases thread <;> simpa [recvCalls, Action.owner] using ih
    | _ => simpa [recvCalls, Action.owner] using ih

theorem recvCalls_map (calls : List Call) : recvCalls (calls.map .recvPackets) = calls := by
  rw [recvCalls, List.filterMap_map]
  exact List.filterMap_some

theorem Scripted.recvRun (h : Scripted P w flag info tr) : ∃ f,
    RecvRun P.lib (RayionClient.rtpHandler (P.rtpParam info)) P.session (recvCalls tr) f := by
  rcases h.rtpHandler with hnil | ⟨calls, f, hrun, heq⟩
  · rw [← recvCalls_part, hnil]
    exact ⟨_, .start⟩
  · rw [← recvCalls_part, heq]
    exact ⟨f, (recvCalls_map calls).symm ▸ hrun⟩

/-- **The RTP thread obeys the protocol**, and receives nothing before the server has accepted
    the connection. -/
theorem ClientRun.obeysProtocol (hrun : ClientRun P w tr c) :
    ObeysProtocol (recvCalls tr) ∧ ∀ pre call post, tr = pre ++ .recvPackets call :: post →
      ∃ server, .connect server 0 ∈ pre := by
  constructor
  · by_cases htr : tr = []
    · subst htr
      exact Receiver.obeys .start
    · obtain ⟨flag, info, hp⟩ := hrun.parses htr
      obtain ⟨f, hrecv⟩ := (hrun.scripted hp).recvRun
      obtain ⟨r, hr, -⟩ := hrecv.receiver
      exact Receiver.obeys hr
  · intro pre call post heq
    obtain ⟨flag, info, hp⟩ := hrun.parses (by simp [heq])
    have hcreated :=
      ((hrun.scripted hp).created pre _ post heq).resolve_left (by simp [Action.owner])
    obtain ⟨c', c'', hpre, -⟩ := hrun.at_split heq
    exact ⟨_, (ClientRun.scripted hp hpre).connect_mem hcreated⟩

end

theorem obeysProtocol_liveURI : ∃ tr c, ClientRun livePlatform liveURI tr c ∧ recvCalls tr ≠ [] ∧
    ObeysProtocol (recvCalls tr) ∧ ∀ pre call post, tr = pre ++ .recvPackets call :: post →
      ∃ server, .connect server 0 ∈ pre := by
  obtain ⟨flag, info, c, -, hrun⟩ := exists_liveRun
  exact ⟨_, c, hrun, by simp [recvCalls], ClientRun.obeysProtocol hrun⟩

section
variable {σ : Type} {P : Platform σ} {w : CStr} {info : URIInfo} {flag : ℤ} {tr : List Action}
  {c : Client σ}

theorem mainStep_ne_none {started : Bool} (hp : Parses P w info) (hc : c.Inv P w info)
    (hpc : c.main.pc ≠ .returned) : ∃ a m, mainStep P w started c.main = some (a, m) := by
  rw [mainStep]
  cases h : c.main.pc with
  | initURIInfo =>
    obtain ⟨flag, hflag⟩ := hp
    have huri := hc.uri
    rw [if_pos h] at huri
    rw [huri, hflag]; exact ⟨_, _, rfl⟩
  | returned => exact absurd h hpc
  | _ => exact ⟨_, _, rfl⟩

/-- **No thread gets stuck.**  The RTP thread does not return, and `main` returns only when it has
    not created a thread. -/
theorem ClientRun.progress (hp : Parses P w info) (hrun : ClientRun P w tr c) :
    (c.main.pc ≠ .returned →
      ∀ started, ∃ a c', clientStep P w c (.main started) = some (a, c')) ∧
    (∀ r, c.rtsp = some r → r ≠ .returned →
      ∀ flag, ∃ a c', clientStep P w c (.rtspControl flag) = some (a, c')) ∧
    (c.rtp ≠ none →
      ∃ a c', clientStep P w c .rtpHandler = some (a, c') ∧ a ≠ .ret .rtpHandler) ∧
    (c.main.pc = .returned → c.rtsp = none ∧ c.rtp = none) := by
  have hc := hrun.holdsInv hp
  have h := (clientRun_iff_interleaves hp).1 ⟨c, hrun, rfl⟩
  refine ⟨?_, ?_, ?_, ?_⟩
  · intro hpc started
    obtain ⟨a, m, hm⟩ := mainStep_ne_none hp hc hpc
    exact ⟨a, _, Client.Inv.main_turn.2 ⟨m, hm, rfl⟩⟩
  · intro r hr hret flag
    have hat := rtspRun_at (h.parts .rtspControl)
    change RtspAt _ _ (c.rtsp.getD .initRTSPmsg) at hat
    rw [hr] at hat
    obtain ⟨a, r', hs⟩ : ∃ a r', rtspStep (P.rtspParam w info) flag r = some (a, r') := by
      cases r with
      | loop timer =>
        obtain ⟨n, rfl, -⟩ := hat
        rw [rtspStep, if_pos (timer_succ n).1]
        exact ⟨_, _, rfl⟩
      | returned => exact absurd rfl hret
      | _ => exact ⟨_, _, rfl⟩
    exact ⟨a, _, hc.rtsp_turn.2 ⟨r, r', hr, hs, rfl⟩⟩
  · intro hrtp
    obtain ⟨r, hr⟩ := Option.ne_none_iff_exists'.1 hrtp
    have hat := rtpRun_at (h.parts .rtpHandler)
    change RtpAt P _ _ (c.rtp.getD .initRTPHandler) at hat
    rw [hr] at hat
    obtain ⟨a, r', hs, hret⟩ : ∃ a r', rtpStep P (P.rtpParam info) r = some (a, r') ∧
        a ≠ .ret .rtpHandler := by
      cases r with
      | initRTPHandler => exact ⟨_, _, rfl, by simp⟩
      | recvPackets rtpPort f =>
        obtain ⟨rfl, calls, hrecv, -⟩ := hat
        obtain ⟨k, -, ht⟩ := hrecv.receiver
        have hpc : f.pc ≠ .returned := by
          intro hpc
          have hstate := ht.state
          simp only [hpc] at hstate
        obtain ⟨call, f', hs⟩ : ∃ call f',
            recvStep P.lib (RayionClient.rtpHandler (P.rtpParam info)) f = some (call, f') :=
          ht.exists_step
        refine ⟨.recvPackets call, .recvPackets (P.rtpParam info).RTPPort f', ?_, by simp⟩
        rw [rtpStep, if_neg hpc]
        exact Option.map_eq_some_iff.2 ⟨_, hs, rfl⟩
      | returned => exact hat.elim
    exact ⟨a, _, hc.rtp_turn.2 ⟨r, r', hr, hs, rfl⟩, hret⟩
  · intro hpc
    constructor
    · by_contra hrtsp
      simpa [hpc] using hc.rtsp hrtsp
    · by_contra hrtp
      simpa [hpc] using hc.rtp hrtp

end

theorem progress_liveURI : ∃ tr, ∃ c : Client SourceTable, ClientRun livePlatform liveURI tr c ∧
    recvCalls tr ≠ [] ∧
    (c.main.pc ≠ .returned →
      ∀ started, ∃ a c', clientStep livePlatform liveURI c (.main started) = some (a, c')) ∧
    (∀ r, c.rtsp = some r → r ≠ .returned →
      ∀ flag, ∃ a c', clientStep livePlatform liveURI c (.rtspControl flag) = some (a, c')) ∧
    (c.rtp ≠ none →
      ∃ a c', clientStep livePlatform liveURI c .rtpHandler = some (a, c') ∧
        a ≠ .ret .rtpHandler) ∧
    (c.main.pc = .returned → c.rtsp = none ∧ c.rtp = none) := by
  obtain ⟨flag, info, c, hp, hrun⟩ := exists_liveRun
  exact ⟨_, c, hrun, by simp [recvCalls], ClientRun.progress ⟨flag, hp⟩ hrun⟩

section
variable {σ : Type} {P : Platform σ} {w : CStr} {tr : List Action} {c : Client σ}
  {u : List UInt8} {q : Bytes4} {p : ℕ} {r : List UInt8}

/-- **All parties are told the endpoint of the URI**: the TCP connection, the RTSP messages and
    the RTP session. -/
theorem ClientRun.endpoint (hquad : ∀ q, P.inetPton (dottedQuad q) = some q)
    (h : Names w u q p r) (hr : colon ∉ r) (hrun : ClientRun P w tr c) :
    (∀ server cnct, .connect server cnct ∈ tr →
      server = ⟨afInet, htons (UInt16.ofNat p), loadLE q⟩) ∧
    (∀ param, .initRTSPmsg param ∈ tr → param = ⟨w, p, rtpPort, P.sk.RTSPSocket⟩) ∧
    ∀ addr, .recvPackets (.addDestination addr) ∈ tr → addr = ⟨loadBE q, 55778⟩ := by
  obtain ⟨flag, info, hp, he⟩ := h.parsed hquad hr
  have hs := hrun.scripted hp
  have hdot : info.getDotIPAddr = dottedQuad q := congrArg Endpoint.dotIPAddr he
  have hip : info.getIPAddr = intOctets q := congrArg Endpoint.IPAddr he
  have hstr : info.getstrPort = decimal p := congrArg Endpoint.strPort he
  have hint : info.getintPort = p := congrArg Endpoint.intPort he
  refine ⟨?_, ?_, ?_⟩
  · intro server cnct ha
    rw [(hs.connect_eq ha).1]
    have hport : UInt16.ofInt (atoi info.getstrPort) = UInt16.ofNat p := by
      rw [hstr, atoi_decimal, ← UInt16.toNat_inj, UInt16.ofInt, UInt16.toNat_ofNat',
        UInt16.toNat_ofNat']
      omega
    have haddr : addrWord P.inetPton info.getDotIPAddr P.address = loadLE q := by
      rw [hdot, addrWord, hquad]; rfl
    change SockaddrIn.mk afInet (htons (UInt16.ofInt (atoi info.getstrPort)))
      (addrWord P.inetPton info.getDotIPAddr P.address) = _
    rw [hport, haddr]
  · intro param ha
    rw [hs.initRTSPmsg_eq ha, Platform.rtspParam, mainRtspParam, hint]; rfl
  · intro addr ha
    obtain ⟨calls, f, hrecv, hmem⟩ := hs.exists_recvRun ha
    have hip' : (RayionClient.rtpHandler (P.rtpParam info)).addr.ip = loadBE q := addr_ip hip
    rw [hrecv.addr_eq hmem, ← hip']; rfl

end

theorem endpoint_liveURI : ∃ tr, ∃ c : Client SourceTable, ClientRun livePlatform liveURI tr c ∧
    (∃ server, .connect server 0 ∈ tr) ∧ (∃ param, .initRTSPmsg param ∈ tr) ∧
    (∃ addr, .recvPackets (.addDestination addr) ∈ tr) ∧
    (∀ server cnct, .connect server cnct ∈ tr →
      server = ⟨afInet, htons (UInt16.ofNat 554), loadLE ![192, 168, 1, 115]⟩) ∧
    (∀ param, .initRTSPmsg param ∈ tr →
      param = ⟨liveURI, (554 : ℕ), rtpPort, livePlatform.sk.RTSPSocket⟩) ∧
    ∀ addr, .recvPackets (.addDestination addr) ∈ tr →
      addr = ⟨loadBE ![192, 168, 1, 115], 55778⟩ := by
  obtain ⟨flag, info, c, -, hrun⟩ := exists_liveRun
  exact ⟨_, c, hrun, by simp, by simp, by simp,
    ClientRun.endpoint strictInetPton_lawful.quad liveURI_names (by decide) hrun⟩

end RayionClient
