/-
  The runs of the client, whatever the schedule.

  `threads` are the three threads on parameters of their own, passed by value.
  `clientRun_iff` takes a run apart into what each of them does, because `main`
  writes the parameters before it creates the thread and never after.
-/
import RayionClient.Threads

namespace RayionClient

open Base

/-- The thread that an action belongs to. -/
def Action.owner : Action → ThreadId
  | initURIInfo _ | connect _ _ | failedToConnect | createThread _ _ | loop => .main
  | initRTSPmsg _ | play _ | errorInPlaying | tick _ => .rtspControl
  | initRTPHandler _ | recvPackets _ => .rtpHandler
  | ret thread => thread

/-- The thread that an action creates. -/
def Action.creates : Action → Option ThreadId
  | createThread thread true => some thread
  | _ => none

/-- The states of one thread. -/
abbrev Local (σ : Type) : ThreadId → Type
  | .main => Main
  | .rtspControl => Rtsp
  | .rtpHandler => Rtp σ

section
variable {σ : Type} (P : Platform σ) (w : CStr)

/-- The threads, each on parameters of its own. -/
def threads (rtsp : RtspParam) (rtp : RtpParam) : Threads ThreadId Action (Local σ) where
  Step
    | .main => fun m a m' => ∃ started, mainStep P w started m = some (a, m')
    | .rtspControl => fun r a r' => ∃ flag, rtspStep rtsp flag r = some (a, r')
    | .rtpHandler => fun r a r' => rtpStep P rtp r = some (a, r')
  owner := Action.owner
  creates := Action.creates

/-- The states of the three threads. -/
def locals (main : Main) (rtsp : Rtsp) (rtp : Rtp σ) : ∀ thread, Local σ thread
  | .main => main
  | .rtspControl => rtsp
  | .rtpHandler => rtp

/-- The threads of a client; those that do not exist are at their beginning. -/
def Client.pool (c : Client σ) : Pool ThreadId (Local σ) where
  state := locals c.main (c.rtsp.getD .initRTSPmsg) (c.rtp.getD .initRTPHandler)
  Live
    | .main => True
    | .rtspControl => c.rtsp ≠ none
    | .rtpHandler => c.rtp ≠ none

/-- What `initURIInfo` leaves in `uri`. -/
def Parses (info : URIInfo) : Prop :=
  ∃ flag, (initURIInfo P.inetPton P.iplong w (Main.entry P).uri).out = some (flag, info)

/-- The parameters that the threads get. -/
def Platform.rtspParam (info : URIInfo) : RtspParam :=
  mainRtspParam w (.new P.rtspPara.1 P.rtspPara.2) info P.sk

/-- The parameters of the RTP thread. -/
def Platform.rtpParam (info : URIInfo) : RtpParam := mainRtpParam (.new P.rtpPara) info

/-- The threads of the client, after `initURIInfo` has left `info`. -/
abbrev Platform.threads (info : URIInfo) : Threads ThreadId Action (Local σ) :=
  RayionClient.threads P w (P.rtspParam w info) (P.rtpParam info)

/-- What `main` has written, and whom it has created, before each of its actions. -/
structure Client.Inv (info : URIInfo) (c : Client σ) : Prop where
  socket : c.main.sk.RTSPSocket = P.sk.RTSPSocket
  uri : c.main.uri = if c.main.pc = .initURIInfo then (Main.entry P).uri else info
  rtsp : c.rtsp ≠ none → c.main.pc = .createRtp ∨ c.main.pc = .loop
  rtp : c.rtp ≠ none → c.main.pc = .loop
  rtspPara : c.main.pc = .createRtp ∨ c.main.pc = .loop →
    c.main.rtspPara = some (P.rtspParam w info)
  rtpPara : c.main.pc = .loop → c.main.rtpPara = some (P.rtpParam info)

end

section
variable {σ : Type} {P : Platform σ} {w : CStr} {info : URIInfo} {c c' : Client σ} {a : Action}
  {tr : List Action}

/-! ## One action -/

theorem mainStep_owner {started : Bool} {m m' : Main} (hs : mainStep P w started m = some (a, m')) :
    a.owner = .main := by
  rw [mainStep] at hs
  cases hpc : m.pc with
  | initURIInfo =>
    simp only [hpc, Option.bind_eq_bind, Option.bind_eq_some_iff] at hs
    obtain ⟨x, -, hs⟩ := hs
    cases hs; rfl
  | returned => simp [hpc] at hs
  | _ => simp only [hpc] at hs; cases hs; rfl

theorem rtspStep_owner {param : RtspParam} {flag : ℤ} {r r' : Rtsp}
    (hs : rtspStep param flag r = some (a, r')) : a.owner = .rtspControl ∧ a.creates = none := by
  cases r with
  | loop timer =>
    rw [rtspStep] at hs
    split_ifs at hs
    all_goals cases hs; exact ⟨rfl, rfl⟩
  | returned => cases hs
  | _ => cases hs; exact ⟨rfl, rfl⟩

theorem rtpStep_owner {param : RtpParam} {r r' : Rtp σ} (hs : rtpStep P param r = some (a, r')) :
    a.owner = .rtpHandler ∧ a.creates = none := by
  cases r with
  | initRTPHandler => cases hs; exact ⟨rfl, rfl⟩
  | recvPackets rtpPort f =>
    rw [rtpStep] at hs
    split_ifs at hs with hpc
    · cases hs; exact ⟨rfl, rfl⟩
    · obtain ⟨x, -, hs⟩ := Option.map_eq_some_iff.1 hs
      cases hs; exact ⟨rfl, rfl⟩
  | returned => cases hs

/-- `main` creates every thread once. -/
theorem mainStep_creates {started : Bool} {m' : Main} (hc : c.Inv P w info)
    (hs : mainStep P w started c.main = some (a, m')) :
    ∀ thread, a.creates = some thread → ¬ c.pool.Live thread := by
  rw [mainStep] at hs
  cases hpc : c.main.pc with
  | initURIInfo =>
    simp only [hpc, Option.bind_eq_bind, Option.bind_eq_some_iff] at hs
    obtain ⟨x, -, hs⟩ := hs
    cases hs
    intro thread h
    cases h
  | returned => simp [hpc] at hs
  | createRtsp =>
    simp only [hpc] at hs
    cases hs
    cases started <;> intro thread h <;> cases h
    exact fun hlive => by simpa [hpc] using hc.rtsp hlive
  | createRtp =>
    simp only [hpc] at hs
    cases hs
    cases started <;> intro thread h <;> cases h
    exact fun hlive => by simpa [hpc] using hc.rtp hlive
  | _ =>
    simp only [hpc] at hs
    cases hs
    intro thread h
    cases h

theorem eq_of_creates {thread : ThreadId} (h : a.creates = some thread) :
    a = .createThread thread true := by
  cases a with
  | createThread thread' started => cases started <;> cases h; rfl
  | _ => cases h

theorem Client.create_of_none (h : a.creates = none) : c.create a = c := by
  cases a with
  | createThread thread started => cases started <;> cases thread <;> first | rfl | cases h
  | _ => rfl

theorem Client.create_main : (c.create a).main = c.main := by
  cases hcr : a.creates with
  | none => rw [create_of_none hcr]
  | some thread =>
    obtain rfl := eq_of_creates hcr
    cases thread <;> rfl

theorem Client.create_state (hfresh : ∀ thread, a.creates = some thread → ¬ c.pool.Live thread) :
    (c.create a).pool.state = c.pool.state := by
  cases hcr : a.creates with
  | none => rw [create_of_none hcr]
  | some thread =>
    obtain rfl := eq_of_creates hcr
    have hdead := hfresh thread rfl
    funext i
    cases thread with
    | main => rfl
    | rtspControl =>
      have hnone : c.rtsp = none := not_not.1 hdead
      cases i with
      | rtspControl => simp only [pool, hnone]; rfl
      | _ => rfl
    | rtpHandler =>
      have hnone : c.rtp = none := not_not.1 hdead
      cases i with
      | rtpHandler => simp only [pool, hnone]; rfl
      | _ => rfl

theorem Client.create_live (i : ThreadId) :
    (c.create a).pool.Live i ↔ c.pool.Live i ∨ a.creates = some i := by
  cases hcr : a.creates with
  | none => simp [create_of_none hcr]
  | some thread =>
    obtain rfl := eq_of_creates hcr
    cases thread <;> cases i <;> simp [create, pool]

/-! ## The client and its threads -/

/-- The turn of a thread, when its parameters are there. -/
theorem Client.Inv.main_turn {started : Bool} : clientStep P w c (.main started) = some (a, c') ↔
    ∃ m, mainStep P w started c.main = some (a, m) ∧ c' = { c with main := m }.create a := by
  simp only [clientStep, Option.bind_eq_bind, Option.bind_eq_some_iff, Option.pure_def,
    Option.some.injEq, Prod.mk.injEq, Prod.exists]
  constructor
  · rintro ⟨a', m, hs, rfl, rfl⟩
    exact ⟨m, hs, rfl⟩
  · rintro ⟨m, hs, rfl⟩
    exact ⟨a, m, hs, rfl, rfl⟩

theorem Client.Inv.rtsp_turn (hc : c.Inv P w info) {flag : ℤ} :
    clientStep P w c (.rtspControl flag) = some (a, c') ↔
      ∃ r r', c.rtsp = some r ∧ rtspStep (P.rtspParam w info) flag r = some (a, r') ∧
        c' = { c with rtsp := some r' } := by
  simp only [clientStep, Option.bind_eq_bind, Option.bind_eq_some_iff, Option.pure_def,
    Option.some.injEq, Prod.mk.injEq, Prod.exists]
  constructor
  · rintro ⟨r, hr, param, hparam, a', r', hs, rfl, rfl⟩
    rw [hc.rtspPara (hc.rtsp (by simp [hr]))] at hparam
    cases hparam
    exact ⟨r, r', hr, hs, rfl⟩
  · rintro ⟨r, r', hr, hs, rfl⟩
    exact ⟨r, hr, _, hc.rtspPara (hc.rtsp (by simp [hr])), a, r', hs, rfl, rfl⟩

/-- The four integers are still what `main` took them for. -/
theorem Client.Inv.rtpParam (hc : c.Inv P w info) (hrtp : c.rtp ≠ none) :
    c.main.rtpParam = some (P.rtpParam info) := by
  have hpc := hc.rtp hrtp
  have huri := hc.uri
  rw [hpc, if_neg (by simp)] at huri
  rw [Main.rtpParam, hc.rtpPara hpc, huri]; rfl

theorem Client.Inv.rtp_turn (hc : c.Inv P w info) :
    clientStep P w c .rtpHandler = some (a, c') ↔
      ∃ r r', c.rtp = some r ∧ rtpStep P (P.rtpParam info) r = some (a, r') ∧
        c' = { c with rtp := some r' } := by
  simp only [clientStep, Option.bind_eq_bind, Option.bind_eq_some_iff, Option.pure_def,
    Option.some.injEq, Prod.mk.injEq, Prod.exists]
  constructor
  · rintro ⟨r, hr, param, hparam, a', r', hs, rfl, rfl⟩
    rw [hc.rtpParam (by simp [hr])] at hparam
    cases hparam
    exact ⟨r, r', hr, hs, rfl⟩
  · rintro ⟨r, r', hr, hs, rfl⟩
    exact ⟨r, hr, _, hc.rtpParam (by simp [hr]), a, r', hs, rfl, rfl⟩

theorem Client.Inv.entry : (Client.entry P).Inv P w info where
  socket := rfl
  uri := rfl
  rtsp h := absurd rfl h
  rtp h := absurd rfl h
  rtspPara h := by simp [Client.entry, Main.entry] at h
  rtpPara h := by cases h

theorem Client.Inv.step (hp : Parses P w info) (hc : c.Inv P w info) {turn : Turn}
    (hs : clientStep P w c turn = some (a, c')) : c'.Inv P w info := by
  cases turn with
  | rtspControl flag =>
    obtain ⟨r, r', hr, -, rfl⟩ := hc.rtsp_turn.1 hs
    exact { hc with rtsp := fun _ => hc.rtsp (by simp [hr]) }
  | rtpHandler =>
    obtain ⟨r, r', hr, -, rfl⟩ := hc.rtp_turn.1 hs
    exact { hc with rtp := fun _ => hc.rtp (by simp [hr]) }
  | main started =>
    obtain ⟨m, hm, rfl⟩ := main_turn.1 hs
    obtain ⟨hsocket, huri, hrtsp, hrtp, hrtspPara, hrtpPara⟩ := hc
    rw [mainStep] at hm
    cases hpc : c.main.pc with
    | initURIInfo =>
      obtain ⟨flag, hflag⟩ := hp
      simp only [hpc, if_true] at huri
      simp only [hpc, huri, hflag, Option.bind_eq_bind, Option.bind_some] at hm
      cases hm
      simp only [hpc, reduceCtorEq, or_self, imp_false, not_not] at hrtsp hrtp
      exact ⟨hsocket, rfl, fun h => absurd hrtsp h, fun h => absurd hrtp h, by simp [create],
        by simp [create]⟩
    | connectServer =>
      simp only [hpc] at hm
      simp only [hpc, reduceCtorEq, or_self, imp_false, not_not, if_false] at hrtsp hrtp huri
      split_ifs at hm
      all_goals
        cases hm
        exact ⟨hsocket, huri, fun h => absurd hrtsp h, fun h => absurd hrtp h, by simp [create],
          by simp [create]⟩
    | failed =>
      simp only [hpc] at hm
      cases hm
      simp only [hpc, reduceCtorEq, or_self, imp_false, not_not, if_false] at hrtsp hrtp huri
      exact ⟨hsocket, huri, fun h => absurd hrtsp h, fun h => absurd hrtp h, by simp [create],
        by simp [create]⟩
    | ret =>
      simp only [hpc] at hm
      cases hm
      simp only [hpc, reduceCtorEq, or_self, imp_false, not_not, if_false] at hrtsp hrtp huri
      exact ⟨hsocket, huri, fun h => absurd hrtsp h, fun h => absurd hrtp h, by simp [create],
        by simp [create]⟩
    | createRtsp =>
      simp only [hpc] at hm
      cases hm
      simp only [hpc, reduceCtorEq, or_self, imp_false, not_not, if_false] at hrtsp hrtp huri
      have hpara : mainRtspParam w (.new P.rtspPara.1 P.rtspPara.2) c.main.uri c.main.sk =
          P.rtspParam w info := by
        rw [mainRtspParam, huri, hsocket]; rfl
      cases started with
      | true => exact ⟨hsocket, huri, fun _ => Or.inl rfl, fun h => absurd hrtp h,
          fun _ => congrArg some hpara, by simp [create]⟩
      | false => exact ⟨hsocket, huri, fun _ => Or.inl rfl, fun h => absurd hrtp h,
          fun _ => congrArg some hpara, by simp [create]⟩
    | createRtp =>
      simp only [hpc] at hm
      cases hm
      simp only [hpc, reduceCtorEq, imp_false, not_not, if_false] at hrtp huri
      have hpara : mainRtpParam (.new P.rtpPara) c.main.uri = P.rtpParam info := by
        rw [huri]; rfl
      have hrtspPara' := hrtspPara (Or.inl hpc)
      cases started with
      | true => exact ⟨hsocket, huri, fun _ => Or.inr rfl, fun _ => rfl, fun _ => hrtspPara',
          fun _ => congrArg some hpara⟩
      | false => exact ⟨hsocket, huri, fun _ => Or.inr rfl, fun _ => rfl, fun _ => hrtspPara',
          fun _ => congrArg some hpara⟩
    | loop =>
      simp only [hpc] at hm
      cases hm
      exact ⟨hsocket, huri, hrtsp, hrtp, hrtspPara, hrtpPara⟩
    | returned => simp [hpc] at hm

theorem ClientRun.holdsInv (hp : Parses P w info) (hrun : ClientRun P w tr c) : c.Inv P w info := by
  refine hrun.inv (I := fun _ c => c.Inv P w info) .entry ?_
  rintro tr c a c' hc ⟨turn, hs⟩
  exact hc.step hp hs

/-- A turn of the client is a step of one of the threads. -/
theorem Client.Inv.pStep (hc : c.Inv P w info) {turn : Turn}
    (hs : clientStep P w c turn = some (a, c')) : (P.threads w info).PStep c.pool a c'.pool := by
  cases turn with
  | main started =>
    obtain ⟨m, hm, rfl⟩ := main_turn.1 hs
    have hown : (P.threads w info).owner a = .main := mainStep_owner hm
    have hfresh : ∀ i, a.creates = some i → ¬ ({ c with main := m } : Client σ).pool.Live i := by
      intro i hi
      have hdead := mainStep_creates hc hm i hi
      cases i <;> exact hdead
    have hstate := create_state hfresh
    refine ⟨?_, ?_, ?_, ?_⟩
    · rw [hown]; trivial
    · rw [hown, hstate]; exact ⟨started, hm⟩
    · intro i hi
      rw [hown] at hi
      rw [hstate]
      cases i with
      | main => exact absurd rfl hi
      | _ => rfl
    · intro i
      rw [create_live]
      cases i <;> rfl
  | rtspControl flag =>
    obtain ⟨r, r', hr, hs', rfl⟩ := hc.rtsp_turn.1 hs
    obtain ⟨hown', hcr⟩ := rtspStep_owner hs'
    have hown : (P.threads w info).owner a = .rtspControl := hown'
    refine ⟨?_, ?_, ?_, ?_⟩
    · rw [hown]; simp [pool, hr]
    · rw [hown]
      refine ⟨flag, ?_⟩
      change rtspStep (P.rtspParam w info) flag (c.rtsp.getD .initRTSPmsg) = some (a, r')
      rw [hr]; exact hs'
    · intro i hi
      rw [hown] at hi
      cases i with
      | rtspControl => exact absurd rfl hi
      | _ => rfl
    · intro i
      have hcr' : (P.threads w info).creates a = none := hcr
      rw [hcr']
      cases i <;> simp [pool, hr]
  | rtpHandler =>
    obtain ⟨r, r', hr, hs', rfl⟩ := hc.rtp_turn.1 hs
    obtain ⟨hown', hcr⟩ := rtpStep_owner hs'
    have hown : (P.threads w info).owner a = .rtpHandler := hown'
    refine ⟨?_, ?_, ?_, ?_⟩
    · rw [hown]; simp [pool, hr]
    · rw [hown]
      change rtpStep P (P.rtpParam info) (c.rtp.getD .initRTPHandler) = some (a, r')
      rw [hr]; exact hs'
    · intro i hi
      rw [hown] at hi
      cases i with
      | rtpHandler => exact absurd rfl hi
      | _ => rfl
    · intro i
      have hcr' : (P.threads w info).creates a = none := hcr
      rw [hcr']
      cases i <;> simp [pool, hr]

/-- A step of one of the threads is a turn of the client. -/
theorem Client.Inv.exists_turn (hc : c.Inv P w info) {p : Pool ThreadId (Local σ)}
    (h : (P.threads w info).PStep c.pool a p) :
    ∃ turn c', clientStep P w c turn = some (a, c') ∧ c'.pool = p := by
  have hmoves := h.moves
  have halive := h.alive
  cases hown : (P.threads w info).owner a with
  | main =>
    rw [hown] at hmoves
    obtain ⟨started, hm⟩ := hmoves
    have hs := main_turn.2 ⟨_, hm, rfl⟩
    refine ⟨_, _, hs, (hc.pStep hs).unique h ?_⟩
    rw [hown]; exact create_main
  | rtspControl =>
    rw [hown] at hmoves halive
    obtain ⟨flag, hr⟩ := hmoves
    obtain ⟨r, hr'⟩ := Option.ne_none_iff_exists'.1 halive
    change rtspStep (P.rtspParam w info) flag (c.rtsp.getD .initRTSPmsg) = _ at hr
    rw [hr'] at hr
    have hs := hc.rtsp_turn.2 ⟨r, _, hr', hr, rfl⟩
    refine ⟨_, _, hs, (hc.pStep hs).unique h ?_⟩
    rw [hown]; rfl
  | rtpHandler =>
    rw [hown] at hmoves halive
    obtain ⟨r, hr'⟩ := Option.ne_none_iff_exists'.1 halive
    change rtpStep P (P.rtpParam info) (c.rtp.getD .initRTPHandler) = _ at hmoves
    rw [hr'] at hmoves
    have hs := hc.rtp_turn.2 ⟨r, _, hr', hmoves, rfl⟩
    refine ⟨_, _, hs, (hc.pStep hs).unique h ?_⟩
    rw [hown]; rfl

/-- **Pointers are as good as values here.** -/
theorem clientRun_iff_interleaves (hp : Parses P w info) {p : Pool ThreadId (Local σ)} :
    (∃ c, ClientRun P w tr c ∧ c.pool = p) ↔
      (P.threads w info).Interleaves (Client.entry P).pool tr p := by
  rw [← Threads.run_iff]
  constructor
  · rintro ⟨c, hrun, rfl⟩
    have hsim : ∃ p, Run (P.threads w info).PStep (Client.entry P).pool tr p ∧
        c.pool = p ∧ c.Inv P w info := by
      refine hrun.simulate (R := fun c p => c.pool = p ∧ c.Inv P w info) ⟨rfl, .entry⟩ ?_
      rintro c p a c' ⟨rfl, hc⟩ ⟨turn, hs⟩
      exact ⟨_, hc.pStep hs, rfl, hc.step hp hs⟩
    obtain ⟨p, hp', rfl, -⟩ := hsim
    exact hp'
  · intro hrun
    have hsim : ∃ c, ClientRun P w tr c ∧ c.pool = p ∧ c.Inv P w info := by
      refine hrun.simulate (R := fun p (c : Client σ) => c.pool = p ∧ c.Inv P w info)
        ⟨rfl, .entry⟩ ?_
      rintro p c a p' ⟨rfl, hc⟩ hs
      obtain ⟨turn, c', hs', rfl⟩ := hc.exists_turn hs
      exact ⟨c', ⟨turn, hs'⟩, rfl, hc.step hp hs'⟩
    obtain ⟨c, hc, hpool, -⟩ := hsim
    exact ⟨c, hc, hpool⟩

end

end RayionClient
