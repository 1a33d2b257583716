/-
  What the threads of the client do.

  `mainScript` and `rtspScript` write down what `main` and `rtspControl` do, and
  the RTP thread does what `recvPackets` does.

  `clientRun_iff`: a trace is one of the client iff every thread follows its
  script in it, and does nothing before its creation.
-/
import RayionClient.Interleaving

namespace RayionClient

open Base

section
variable {σ : Type} (P : Platform σ) (w : CStr)

/-- The socket after `initWinsock`. -/
def Platform.socket (info : URIInfo) : Socket := mainSocket P.sk info

/-- The address that `connectServer` fills in. -/
def Platform.server (info : URIInfo) : SockaddrIn :=
  (P.socket info).serverAddr P.inetPton P.address

/-- What `connectServer` returns. -/
def Platform.cnct (info : URIInfo) : ℤ :=
  (P.socket info).connectServer P.inetPton P.connect P.address

/-- What `main` does; `rtsp` and `rtp` tell whether the threads start. -/
def mainScript (flag : ℤ) (info : URIInfo) (rtsp rtp : Bool) (n : ℕ) : List Action :=
  [.initURIInfo flag, .connect (P.server info) (P.cnct info)] ++
    if P.cnct info ≠ 0 then [.failedToConnect, .ret .main]
    else [.createThread .rtspControl rtsp, .createThread .rtpHandler rtp] ++ List.replicate n .loop

/-- The timer counts from 0 to 100000 and starts again. -/
def ticks (n : ℕ) : List Action := (List.range n).map fun k => .tick ((k + 1) % 100001 : ℕ)

/-- What `rtspControl` does, when `play` returns `flag`. -/
def rtspScript (param : RtspParam) (flag : ℤ) (n : ℕ) : List Action :=
  [.initRTSPmsg param, .play flag] ++
    if flag ≠ 200 then [.errorInPlaying, .ret .rtspControl] else ticks n

/-- The runs of `main` alone. -/
abbrev MainRun : List Action → Main → Prop :=
  Run (fun m a m' => ∃ started, mainStep P w started m = some (a, m')) (.entry P)

/-- The runs of `rtspControl` alone. -/
abbrev RtspRun (param : RtspParam) : List Action → Rtsp → Prop :=
  Run (fun r a r' => ∃ flag, rtspStep param flag r = some (a, r')) .initRTSPmsg

/-- The runs of the RTP thread alone. -/
abbrev RtpRun (param : RtpParam) : List Action → Rtp σ → Prop :=
  Run (fun r a r' => rtpStep P param r = some (a, r')) .initRTPHandler

/-- `main` before each of its actions. -/
def MainAt (flag : ℤ) (info : URIInfo) (tr : List Action) (m : Main) : Prop :=
  match m.pc with
  | .initURIInfo => m = .entry P ∧ tr = []
  | .connectServer => m.uri = info ∧ m.sk = P.sk ∧ tr = [.initURIInfo flag]
  | .failed => P.cnct info ≠ 0 ∧ tr = [.initURIInfo flag, .connect (P.server info) (P.cnct info)]
  | .ret => P.cnct info ≠ 0 ∧
    tr = [.initURIInfo flag, .connect (P.server info) (P.cnct info), .failedToConnect]
  | .createRtsp => P.cnct info = 0 ∧
    tr = [.initURIInfo flag, .connect (P.server info) (P.cnct info)]
  | .createRtp => P.cnct info = 0 ∧ ∃ rtsp,
    tr = [.initURIInfo flag, .connect (P.server info) (P.cnct info),
      .createThread .rtspControl rtsp]
  | .loop => ∃ rtsp rtp n, P.cnct info = 0 ∧ tr = mainScript P flag info rtsp rtp n
  | .returned => P.cnct info ≠ 0 ∧ tr = mainScript P flag info false false 0

end

section
variable {σ : Type} {P : Platform σ} {w : CStr} {info : URIInfo} {flag : ℤ} {tr : List Action}

theorem mainScript_failed (h : P.cnct info ≠ 0) (rtsp rtp : Bool) (n : ℕ) :
    mainScript P flag info rtsp rtp n = [.initURIInfo flag, .connect (P.server info) (P.cnct info),
      .failedToConnect, .ret .main] := by
  rw [mainScript, if_pos h]; rfl

theorem mainScript_zero (h : P.cnct info = 0) (rtsp rtp : Bool) :
    mainScript P flag info rtsp rtp 0 = [.initURIInfo flag, .connect (P.server info) (P.cnct info),
      .createThread .rtspControl rtsp, .createThread .rtpHandler rtp] := by
  rw [mainScript, if_neg (not_not.2 h)]; rfl

theorem mainScript_succ (h : P.cnct info = 0) (rtsp rtp : Bool) (n : ℕ) :
    mainScript P flag info rtsp rtp (n + 1) = mainScript P flag info rtsp rtp n ++ [.loop] := by
  rw [mainScript, mainScript, if_neg (not_not.2 h), if_neg (not_not.2 h), List.replicate_succ']
  simp only [List.append_assoc]

theorem MainAt.step {started : Bool} {m m' : Main} {a : Action}
    (hp : (initURIInfo P.inetPton P.iplong w (Main.entry P).uri).out = some (flag, info))
    (h : MainAt P flag info tr m) (hs : mainStep P w started m = some (a, m')) :
    MainAt P flag info (tr ++ [a]) m' := by
  rw [mainStep] at hs
  rw [MainAt] at h
  cases hpc : m.pc with
  | initURIInfo =>
    simp only [hpc] at hs h
    obtain ⟨rfl, rfl⟩ := h
    simp only [hp, Option.bind_eq_bind, Option.bind_some] at hs
    cases hs
    exact ⟨rfl, rfl, rfl⟩
  | connectServer =>
    simp only [hpc] at hs h
    obtain ⟨rfl, hsk, rfl⟩ := h
    rw [hsk] at hs
    split_ifs at hs with hcnct
    · cases hs
      exact ⟨hcnct, rfl⟩
    · cases hs
      exact ⟨not_not.1 hcnct, rfl⟩
  | failed =>
    simp only [hpc] at hs h
    cases hs
    obtain ⟨hcnct, rfl⟩ := h
    exact ⟨hcnct, rfl⟩
  | ret =>
    simp only [hpc] at hs h
    cases hs
    obtain ⟨hcnct, rfl⟩ := h
    exact ⟨hcnct, (mainScript_failed hcnct _ _ _).symm⟩
  | createRtsp =>
    simp only [hpc] at hs h
    cases hs
    obtain ⟨hcnct, rfl⟩ := h
    exact ⟨hcnct, started, rfl⟩
  | createRtp =>
    simp only [hpc] at hs h
    cases hs
    obtain ⟨hcnct, rtsp, rfl⟩ := h
    exact ⟨rtsp, started, 0, hcnct, (mainScript_zero hcnct _ _).symm⟩
  | loop =>
    simp only [hpc] at hs h
    cases hs
    obtain ⟨rtsp, rtp, n, hcnct, rfl⟩ := h
    rw [MainAt]
    simp only [hpc]
    exact ⟨rtsp, rtp, n + 1, hcnct, (mainScript_succ hcnct _ _ _).symm⟩
  | returned => simp [hpc] at hs

/-- `main` can go through its script. -/
theorem exists_run_mainScript
    (hp : (initURIInfo P.inetPton P.iplong w (Main.entry P).uri).out = some (flag, info))
    (rtsp rtp : Bool) (n : ℕ) :
    ∃ m, MainRun P w (mainScript P flag info rtsp rtp n) m := by
  have h₁ : MainRun P w [.initURIInfo flag]
      { Main.entry P with uri := info, pc := .connectServer } := by
    refine Run.start.snoc ⟨false, ?_⟩
    simp only [mainStep, Main.entry] at hp ⊢
    rw [hp]; rfl
  have h₂ : MainRun P w [.initURIInfo flag, .connect (P.server info) (P.cnct info)]
      { Main.entry P with
        uri := info
        sk := P.socket info
        pc := if P.cnct info ≠ 0 then .failed else .createRtsp } := h₁.snoc ⟨false, rfl⟩
  by_cases h0 : P.cnct info = 0
  · rw [if_neg (not_not.2 h0)] at h₂
    have h₄ := (h₂.snoc (l := Action.createThread .rtspControl rtsp) ⟨rtsp, rfl⟩).snoc
      (l := Action.createThread .rtpHandler rtp) ⟨rtp, rfl⟩
    -- the loop of `main` changes nothing
    have hloop : ∃ m : Main, m.pc = .loop ∧ MainRun P w (mainScript P flag info rtsp rtp n) m := by
      induction n with
      | zero =>
        rw [mainScript_zero h0]
        exact ⟨_, rfl, h₄⟩
      | succ n ih =>
        obtain ⟨m, hpc, hrun⟩ := ih
        rw [mainScript_succ h0]
        refine ⟨m, hpc, hrun.snoc ⟨false, ?_⟩⟩
        simp only [mainStep, hpc]
    obtain ⟨m, -, hrun⟩ := hloop
    exact ⟨m, hrun⟩
  · rw [if_pos h0] at h₂
    rw [mainScript_failed h0]
    exact ⟨_, (h₂.snoc (l := Action.failedToConnect) ⟨false, rfl⟩).snoc
      (l := Action.ret .main) ⟨false, rfl⟩⟩

/-- **The actions of `main`.** -/
theorem main_iff
    (hp : (initURIInfo P.inetPton P.iplong w (Main.entry P).uri).out = some (flag, info)) :
    (∃ m, MainRun P w tr m) ↔ ∃ rtsp rtp n, tr <+: mainScript P flag info rtsp rtp n := by
  constructor
  · rintro ⟨m, hrun⟩
    have h : MainAt P flag info tr m := by
      have h0 : MainAt P flag info [] (.entry P) := ⟨rfl, rfl⟩
      refine hrun.inv h0 ?_
      rintro tr m a m' h ⟨started, hs⟩
      exact h.step hp hs
    rw [MainAt] at h
    cases hpc : m.pc with
    | initURIInfo =>
      simp only [hpc] at h
      obtain ⟨-, rfl⟩ := h
      exact ⟨false, false, 0, List.nil_prefix⟩
    | connectServer =>
      simp only [hpc] at h
      obtain ⟨-, -, rfl⟩ := h
      exact ⟨false, false, 0, by rw [mainScript]; exact ⟨_, rfl⟩⟩
    | failed | createRtsp =>
      simp only [hpc] at h
      obtain ⟨-, rfl⟩ := h
      exact ⟨false, false, 0, by rw [mainScript]; exact ⟨_, rfl⟩⟩
    | ret =>
      simp only [hpc] at h
      obtain ⟨hcnct, rfl⟩ := h
      exact ⟨false, false, 0, by rw [mainScript_failed hcnct]; exact ⟨_, rfl⟩⟩
    | createRtp =>
      simp only [hpc] at h
      obtain ⟨hcnct, rtsp, rfl⟩ := h
      exact ⟨rtsp, false, 0, by rw [mainScript_zero hcnct]; exact ⟨_, rfl⟩⟩
    | loop =>
      simp only [hpc] at h
      obtain ⟨rtsp, rtp, n, -, rfl⟩ := h
      exact ⟨rtsp, rtp, n, List.prefix_rfl⟩
    | returned =>
      simp only [hpc] at h
      obtain ⟨-, rfl⟩ := h
      exact ⟨false, false, 0, List.prefix_rfl⟩
  · rintro ⟨rtsp, rtp, n, hpre⟩
    obtain ⟨m, hrun⟩ := exists_run_mainScript hp rtsp rtp n
    exact hrun.of_prefix hpre

/-! ### `rtspControl` -/

theorem ticks_succ (n : ℕ) : ticks (n + 1) = ticks n ++ [.tick ((n + 1) % 100001 : ℕ)] := by
  rw [ticks, List.range_succ, List.map_append]; rfl

theorem rtspScript_ok (param : RtspParam) (n : ℕ) :
    rtspScript param 200 n = [.initRTSPmsg param, .play 200] ++ ticks n := rfl

theorem rtspScript_failed (param : RtspParam) (h : flag ≠ 200) (n : ℕ) :
    rtspScript param flag n =
      [.initRTSPmsg param, .play flag, .errorInPlaying, .ret .rtspControl] := by
  rw [rtspScript, if_pos h]; rfl

/-- `rtspControl` before each of its actions. -/
def RtspAt (param : RtspParam) (tr : List Action) : Rtsp → Prop
  | .initRTSPmsg => tr = []
  | .play => tr = [.initRTSPmsg param]
  | .failed => ∃ flag, flag ≠ 200 ∧ tr = [.initRTSPmsg param, .play flag]
  | .ret => ∃ flag, flag ≠ 200 ∧ tr = [.initRTSPmsg param, .play flag, .errorInPlaying]
  | .loop timer => ∃ n : ℕ, timer = (n % 100001 : ℕ) ∧ tr = rtspScript param 200 n
  | .returned => ∃ flag, flag ≠ 200 ∧ tr = rtspScript param flag 0

/-- The test restarts the timer before it overflows. -/
theorem timer_succ (n : ℕ) : (n % 100001 : ℕ) + 1 < (2 ^ 31 : ℤ) ∧
    (if (n % 100001 : ℕ) + 1 > (100000 : ℤ) then (0 : ℤ) else (n % 100001 : ℕ) + 1) =
      ((n + 1) % 100001 : ℕ) := by
  have hlt : n % 100001 < 100001 := Nat.mod_lt _ (by omega)
  refine ⟨by omega, ?_⟩
  split_ifs <;> omega

theorem RtspAt.step {param : RtspParam} {r r' : Rtsp} {a : Action} {flag : ℤ}
    (h : RtspAt param tr r) (hs : rtspStep param flag r = some (a, r')) :
    RtspAt param (tr ++ [a]) r' := by
  cases r with
  | initRTSPmsg =>
    cases hs
    obtain rfl : tr = [] := h
    rfl
  | play =>
    obtain rfl : tr = [.initRTSPmsg param] := h
    cases hs
    split_ifs with hflag
    · exact ⟨flag, hflag, rfl⟩
    · obtain rfl : flag = 200 := not_not.1 hflag
      exact ⟨0, rfl, rfl⟩
  | failed =>
    obtain ⟨flag', hflag, rfl⟩ := h
    cases hs
    exact ⟨flag', hflag, rfl⟩
  | ret =>
    obtain ⟨flag', hflag, rfl⟩ := h
    cases hs
    exact ⟨flag', hflag, (rtspScript_failed param hflag 0).symm⟩
  | loop timer =>
    obtain ⟨n, rfl, rfl⟩ := h
    obtain ⟨hlt, hnext⟩ := timer_succ n
    simp only [rtspStep, if_pos hlt, hnext, Option.some.injEq, Prod.mk.injEq] at hs
    obtain ⟨rfl, rfl⟩ := hs
    refine ⟨n + 1, rfl, ?_⟩
    rw [rtspScript_ok, rtspScript_ok, ticks_succ, List.append_assoc]
  | returned => cases hs

theorem rtspRun_at {param : RtspParam} {r : Rtsp} (hrun : RtspRun param tr r) :
    RtspAt param tr r := by
  have h0 : RtspAt param [] .initRTSPmsg := rfl
  refine hrun.inv h0 ?_
  rintro tr r a r' h ⟨flag, hs⟩
  exact h.step hs

/-- `rtspControl` can go through its script. -/
theorem exists_run_rtspScript (param : RtspParam) (flag : ℤ) (n : ℕ) :
    ∃ r, RtspRun param (rtspScript param flag n) r := by
  have h₂ : RtspRun param [.initRTSPmsg param, .play flag]
      (if flag ≠ 200 then .failed else .loop 0) := by
    have h₁ : RtspRun param [.initRTSPmsg param] .play := Run.start.snoc ⟨flag, rfl⟩
    exact h₁.snoc ⟨flag, rfl⟩
  by_cases hflag : flag = 200
  · subst hflag
    have hloop : RtspRun param (rtspScript param 200 n) (.loop (n % 100001 : ℕ)) := by
      induction n with
      | zero => exact h₂
      | succ n ih =>
        rw [rtspScript_ok, ticks_succ, ← List.append_assoc]
        refine ih.snoc ⟨0, ?_⟩
        obtain ⟨hlt, hnext⟩ := timer_succ n
        simp only [rtspStep, if_pos hlt, hnext]
    exact ⟨_, hloop⟩
  · rw [if_pos hflag] at h₂
    rw [rtspScript_failed param hflag]
    exact ⟨_, (h₂.snoc (l := Action.errorInPlaying) ⟨0, rfl⟩).snoc
      (l := Action.ret .rtspControl) ⟨0, rfl⟩⟩

/-- **The actions of `rtspControl`.** -/
theorem rtsp_iff (param : RtspParam) :
    (∃ r, RtspRun param tr r) ↔ ∃ flag n, tr <+: rtspScript param flag n := by
  constructor
  · rintro ⟨r, hrun⟩
    have h := rtspRun_at hrun
    cases r with
    | initRTSPmsg =>
      obtain rfl : tr = [] := h
      exact ⟨0, 0, List.nil_prefix⟩
    | play =>
      obtain rfl : tr = [.initRTSPmsg param] := h
      exact ⟨0, 0, by rw [rtspScript]; exact ⟨_, rfl⟩⟩
    | failed =>
      obtain ⟨flag, -, rfl⟩ := h
      exact ⟨flag, 0, by rw [rtspScript]; exact ⟨_, rfl⟩⟩
    | ret =>
      obtain ⟨flag, hflag, rfl⟩ := h
      exact ⟨flag, 0, by rw [rtspScript_failed param hflag]; exact ⟨_, rfl⟩⟩
    | loop timer =>
      obtain ⟨n, -, rfl⟩ := h
      exact ⟨200, n, List.prefix_rfl⟩
    | returned =>
      obtain ⟨flag, -, rfl⟩ := h
      exact ⟨flag, 0, List.prefix_rfl⟩
  · rintro ⟨flag, n, hpre⟩
    obtain ⟨r, hrun⟩ := exists_run_rtspScript param flag n
    exact hrun.of_prefix hpre

/-! ### The RTP thread -/

/-- The RTP thread before each of its actions. -/
def RtpAt (P : Platform σ) (param : RtpParam) (tr : List Action) : Rtp σ → Prop
  | .initRTPHandler => tr = []
  | .recvPackets rtpPort f => rtpPort = param.RTPPort ∧ ∃ calls,
    RecvRun P.lib (rtpHandler param) P.session calls f ∧
      tr = .initRTPHandler param.RTPPort :: calls.map .recvPackets
  | .returned => False

theorem RtpAt.step {param : RtpParam} {r r' : Rtp σ} {a : Action} (h : RtpAt P param tr r)
    (hs : rtpStep P param r = some (a, r')) : RtpAt P param (tr ++ [a]) r' := by
  cases r with
  | initRTPHandler =>
    cases hs
    obtain rfl : tr = [] := h
    exact ⟨rfl, [], .start, rfl⟩
  | recvPackets rtpPort f =>
    obtain ⟨rfl, calls, hrun, rfl⟩ := h
    rw [rtpStep] at hs
    split_ifs at hs with hpc
    · -- `recvPackets` has no return
      obtain ⟨c, -, ht⟩ := hrun.receiver
      have hstate := ht.state
      simp only [hpc] at hstate
    · obtain ⟨⟨call, f'⟩, hcall, hs⟩ := Option.map_eq_some_iff.1 hs
      cases hs
      refine ⟨rfl, calls ++ [call], hrun.snoc hcall, ?_⟩
      rw [List.map_append, List.cons_append]; rfl
  | returned => exact h.elim

theorem rtpRun_at {param : RtpParam} {r : Rtp σ} (hrun : RtpRun P param tr r) :
    RtpAt P param tr r := by
  have h0 : RtpAt P param [] .initRTPHandler := rfl
  refine hrun.inv h0 ?_
  intro tr r a r' h hs
  exact h.step hs

/-- **The actions of the RTP thread.** -/
theorem rtp_iff (param : RtpParam) : (∃ r, RtpRun P param tr r) ↔
    tr = [] ∨ ∃ calls f, RecvRun P.lib (rtpHandler param) P.session calls f ∧
      tr = .initRTPHandler param.RTPPort :: calls.map .recvPackets := by
  constructor
  · rintro ⟨r, hrun⟩
    have h := rtpRun_at hrun
    cases r with
    | initRTPHandler => exact Or.inl h
    | recvPackets rtpPort f =>
      obtain ⟨-, calls, hcalls, rfl⟩ := h
      exact Or.inr ⟨calls, f, hcalls, rfl⟩
    | returned => exact h.elim
  · rintro (rfl | ⟨calls, f, hcalls, rfl⟩)
    · exact ⟨_, .start⟩
    · refine ⟨.recvPackets param.RTPPort f, ?_⟩
      induction hcalls with
      | start =>
        have h₁ : RtpRun P param [.initRTPHandler param.RTPPort]
            (.recvPackets param.RTPPort (.entry P.session)) := Run.start.snoc rfl
        exact h₁
      | @snoc calls f f' call hrun hs ih =>
        rw [List.map_append, ← List.cons_append]
        refine ih.snoc ?_
        have hpc : f.pc ≠ .returned := by
          intro hpc
          rw [recvStep, hpc] at hs; cases hs
        rw [rtpStep, if_neg hpc]
        exact Option.map_eq_some_iff.2 ⟨_, hs, rfl⟩

end

/-! ## A run -/

section
variable {σ : Type} {P : Platform σ} {w : CStr} {u : List UInt8} {q : Bytes4} {p : ℕ}
  {r : List UInt8}

/-- What `main` gets from a URI that names an endpoint. -/
theorem Names.parsed (hquad : ∀ q, P.inetPton (dottedQuad q) = some q) (h : Names w u q p r)
    (hr : colon ∉ r) : ∃ flag info,
      (initURIInfo P.inetPton P.iplong w (Main.entry P).uri).out = some (flag, info) ∧
        info.endpoint = ⟨dottedQuad q, intOctets q, decimal p, p⟩ := by
  obtain ⟨log, info, hrun, -, -, he⟩ := initURIInfo_fits P.inetPton P.iplong w
    (URIInfo.new_clean P.uri.1 P.uri.2.1 P.uri.2.2) (h.copiesFit hr _)
  rw [URIInfo.new_endpoint, h.parse_eq hr, visit_new hquad] at he
  exact ⟨_, info, congrArg Exec.out hrun, he⟩

/-- If the server accepts the connection, both threads may start, and the RTP thread gets to
    `recvPackets`. -/
theorem exists_started {info : URIInfo} {flag : ℤ}
    (hp : (initURIInfo P.inetPton P.iplong w (Main.entry P).uri).out = some (flag, info))
    (h0 : P.cnct info = 0) : ∃ c, ClientRun P w
      [.initURIInfo flag, .connect (P.server info) 0, .createThread .rtspControl true,
        .createThread .rtpHandler true, .initRTPHandler rtpPort] c ∧
      c.rtsp = some .initRTSPmsg ∧ c.main.rtspPara = some (P.rtspParam w info) ∧
      c.main.rtpParam = some (P.rtpParam info) ∧
      c.rtp = some (.recvPackets rtpPort (.entry P.session)) := by
  have h₁ : ClientRun P w [.initURIInfo flag]
      { Client.entry P with main := { Main.entry P with uri := info, pc := .connectServer } } := by
    refine Run.start.snoc ⟨.main false, ?_⟩
    change ((initURIInfo P.inetPton P.iplong w (Main.entry P).uri).out >>= _) >>= _ = _
    rw [hp]; rfl
  have h₂ : ClientRun P w [.initURIInfo flag, .connect (P.server info) (P.cnct info)]
      { Client.entry P with
        main := { Main.entry P with
          uri := info
          sk := P.socket info
          pc := if P.cnct info ≠ 0 then .failed else .createRtsp } } :=
    h₁.snoc ⟨.main false, rfl⟩
  rw [if_neg (not_not.2 h0), h0] at h₂
  have h₃ := h₂.snoc (l := Action.createThread .rtspControl true) ⟨.main true, rfl⟩
  have h₄ := h₃.snoc (l := Action.createThread .rtpHandler true) ⟨.main true, rfl⟩
  have h₅ := h₄.snoc (l := Action.initRTPHandler rtpPort) ⟨.rtpHandler, rfl⟩
  exact ⟨_, h₅, rfl, rfl, rfl, rfl⟩

end

/-- The server accepts the connection, and there are no packets. -/
def livePlatform : Platform SourceTable where
  inetPton := strictInetPton
  connect _ _ := 0
  lib := tableSession (fun _ sources => sources) fun _ => ⟨0, 0⟩
  session := ⟨[], 0, 0, 0⟩
  sk := ⟨0, [], []⟩
  uri := (liveURI, 0, 0)
  iplong _ := 0
  address := 0
  rtspPara := (liveURI, 0)
  rtpPara := 0

theorem liveURI_parsed : ∃ flag info, (initURIInfo livePlatform.inetPton livePlatform.iplong liveURI
    (Main.entry livePlatform).uri).out = some (flag, info) := by
  obtain ⟨flag, info, hp, -⟩ :=
    liveURI_names.parsed (P := livePlatform) strictInetPton_lawful.quad (by decide)
  exact ⟨flag, info, hp⟩

/-- Both threads start, and do something. -/
theorem exists_liveRun : ∃ flag info c,
    (initURIInfo livePlatform.inetPton livePlatform.iplong liveURI
      (Main.entry livePlatform).uri).out = some (flag, info) ∧
    ClientRun livePlatform liveURI
      [.initURIInfo flag, .connect (livePlatform.server info) 0, .createThread .rtspControl true,
        .createThread .rtpHandler true, .initRTPHandler rtpPort,
        .initRTSPmsg (livePlatform.rtspParam liveURI info),
        .recvPackets (.addDestination (rtpHandler (livePlatform.rtpParam info)).addr)] c := by
  obtain ⟨flag, info, hp⟩ := liveURI_parsed
  obtain ⟨c, hrun, hrtsp, hpara, hparam, hrtp⟩ := exists_started hp rfl
  have h₆ := hrun.snoc (l := Action.initRTSPmsg (livePlatform.rtspParam liveURI info))
    ⟨.rtspControl 0, by rw [clientStep, hrtsp, hpara]; rfl⟩
  have h₇ := h₆.snoc
    (l := Action.recvPackets (.addDestination (rtpHandler (livePlatform.rtpParam info)).addr))
    ⟨.rtpHandler, by simp only [clientStep, hrtp, hparam]; rfl⟩
  exact ⟨flag, info, _, hp, h₇⟩

/-! ## The client -/

/-- What the client does, when `initURIInfo` returns `flag` and leaves `info`. -/
structure Scripted {σ : Type} (P : Platform σ) (w : CStr) (flag : ℤ) (info : URIInfo)
    (tr : List Action) : Prop where
  main : ∃ rtsp rtp n,
    tr.filter (·.owner = .main) <+: mainScript P flag info rtsp rtp n
  rtspControl : ∃ flag n,
    tr.filter (·.owner = .rtspControl) <+: rtspScript (P.rtspParam w info) flag n
  rtpHandler : tr.filter (·.owner = .rtpHandler) = [] ∨ ∃ calls f,
    RecvRun P.lib (RayionClient.rtpHandler (P.rtpParam info)) P.session calls f ∧
      tr.filter (·.owner = .rtpHandler) = .initRTPHandler rtpPort :: calls.map .recvPackets
  created : ∀ pre a post, tr = pre ++ a :: post →
    a.owner = .main ∨ .createThread a.owner true ∈ pre

section
variable {σ : Type} {P : Platform σ} {w : CStr} {info : URIInfo} {flag : ℤ} {tr : List Action}
  {c : Client σ}

theorem created_iff {thread : ThreadId} :
    (P.threads w info).Created thread tr ↔ .createThread thread true ∈ tr := by
  constructor
  · rintro ⟨a, ha, hcr⟩
    exact eq_of_creates hcr ▸ ha
  · exact fun h => ⟨_, h, rfl⟩

theorem entry_live {thread : ThreadId} : (Client.entry P).pool.Live thread ↔ thread = .main := by
  cases thread <;> simp [Client.pool, Client.entry]

/-- Every thread follows its script. -/
theorem ClientRun.scripted
    (hp : (initURIInfo P.inetPton P.iplong w (Main.entry P).uri).out = some (flag, info))
    (hrun : ClientRun P w tr c) : Scripted P w flag info tr := by
  have h := (clientRun_iff_interleaves ⟨flag, hp⟩).1 ⟨c, hrun, rfl⟩
  refine ⟨?_, ?_, ?_, ?_⟩
  · exact (main_iff hp).1 ⟨_, h.parts .main⟩
  · exact (rtsp_iff _).1 ⟨_, h.parts .rtspControl⟩
  · exact (rtp_iff _).1 ⟨_, h.parts .rtpHandler⟩
  · intro pre a post heq
    exact (h.after pre a post heq).imp entry_live.1 created_iff.1

/-- **The traces of the client.** -/
theorem clientRun_iff
    (hp : (initURIInfo P.inetPton P.iplong w (Main.entry P).uri).out = some (flag, info)) :
    (∃ c, ClientRun P w tr c) ↔ Scripted P w flag info tr := by
  constructor
  · rintro ⟨c, hrun⟩
    exact hrun.scripted hp
  · rintro ⟨hmain, hrtsp, hrtp, hcreated⟩
    obtain ⟨m, hm⟩ := (main_iff hp).2 hmain
    obtain ⟨r, hr⟩ := (rtsp_iff _).2 hrtsp
    obtain ⟨r', hr'⟩ := (rtp_iff (P.rtpParam info)).2 hrtp
    have h : (P.threads w info).Interleaves (Client.entry P).pool tr ⟨locals m r r', fun i =>
        (Client.entry P).pool.Live i ∨ (P.threads w info).Created i tr⟩ := by
      refine ⟨?_, fun i => Iff.rfl, ?_⟩
      · intro i
        cases i with
        | main => exact hm
        | rtspControl => exact hr
        | rtpHandler => exact hr'
      · intro pre a post heq
        exact (hcreated pre a post heq).imp entry_live.2 created_iff.2
    obtain ⟨c, hc, -⟩ := (clientRun_iff_interleaves ⟨flag, hp⟩).2 h
    exact ⟨c, hc⟩

end

theorem clientRun_liveURI_iff : ∃ flag info, ∀ tr,
    (∃ c, ClientRun livePlatform liveURI tr c) ↔ Scripted livePlatform liveURI flag info tr := by
  obtain ⟨flag, info, hp⟩ := liveURI_parsed
  exact ⟨flag, info, fun tr => clientRun_iff hp⟩

end RayionClient
