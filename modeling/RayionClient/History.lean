/-
  One object and several URIs.

  A history is a sequence of calls of `initURIInfo` on one object, all of whose
  copies fit.  The texts are laid over each other from call to call, so the
  object remembers the longest host and the longest port text it has seen
  (`History.length_le_iff`).

  * `History.consistent`: the two forms of the endpoint agree after every call.
  * `History.sameAsFresh_iff`: a call is like one on a fresh object iff no text
    seen before is longer than its own.
-/
import RayionClient.RoundTrip

namespace RayionClient

open Base

/-- The calls made so far on one object, latest first, with their logs. -/
inductive History (inetPton : InetPton) : List CStr → List (List Ev) → URIInfo → Prop
  | new (URI : CStr) (IPAddr : Fin 4 → ℤ) (intPort : ℤ) :
    History inetPton [] [] (.new URI IPAddr intPort)
  | call {ws : List CStr} {logs : List (List Ev)} {info info' : URIInfo} {log : List Ev} {flag : ℤ}
    (h : History inetPton ws logs info) (iplong : ℕ → UInt32) (w : CStr)
    (hrun : initURIInfo inetPton iplong w info = ⟨log, some (flag, info')⟩)
    (hfit : ∀ e ∈ log, e.Fits) : History inetPton (w :: ws) (log :: logs) info'

/-- The port text after some calls. -/
def endPort : List CStr → List UInt8
  | [] => []
  | w :: ws => scanUntil portStep portStop (endPort ws) (visits w)

/-- The colons visited in some calls. -/
def pastVisits : List CStr → List Visit
  | [] => []
  | w :: ws => portVisits (endPort ws) (visits w) ++ pastVisits ws

section
variable {inetPton : InetPton} {ws : List CStr} {logs : List (List Ev)} {info info' : URIInfo}

/-! ## One call -/

/-- What is known of a call that returned. -/
theorem call_spec {iplong : ℕ → UInt32} {w : CStr} {log : List Ev} {flag : ℤ} (hc : info.Clean)
    (hrun : initURIInfo inetPton iplong w info = ⟨log, some (flag, info')⟩) :
    CopiesFit info.getstrPort (visits w) ∧
      VisitLog (portVisits info.getstrPort (visits w)) (parseMsgs info.getstrPort w) log ∧
      info'.Clean ∧ info'.endpoint = info.endpoint.parse inetPton iplong w := by
  by_cases hf : CopiesFit info.getstrPort (visits w)
  · obtain ⟨log', info'', hrun', hlog, hc', he⟩ := initURIInfo_fits inetPton iplong w hc hf
    rw [hrun'] at hrun
    cases hrun
    exact ⟨hf, hlog, hc', he⟩
  · have hnone := (initURIInfo_overflow inetPton iplong w hc hf).1
    rw [hrun] at hnone; cases hnone

/-- A call visits a colon iff there is one. -/
theorem colons_eq_nil_iff {port : List UInt8} {w : CStr} {msgs : List Msg} {log : List Ev}
    (hlog : VisitLog (portVisits port (visits w)) msgs log) : colons log = [] ↔ visits w = [] := by
  rw [hlog.colons, List.map_eq_nil_iff, portVisits, reached_eq_nil]

namespace History

theorem clean (h : History inetPton ws logs info) : info.Clean := by
  induction h with
  | new URI IPAddr intPort => exact URIInfo.new_clean URI IPAddr intPort
  | call h iplong w hrun hfit ih => exact (call_spec ih hrun).2.2.1

theorem getstrPort_eq (h : History inetPton ws logs info) : info.getstrPort = endPort ws := by
  induction h with
  | new URI IPAddr intPort => exact URIInfo.new_getstrPort URI IPAddr intPort
  | call h iplong w hrun hfit ih =>
    obtain ⟨-, -, -, he⟩ := call_spec h.clean hrun
    have hport := congrArg Endpoint.strPort he
    rw [Endpoint.parse_strPort] at hport
    rw [endPort, ← ih]; exact hport

/-- A call whose copies fit returns. -/
theorem exists_call (h : History inetPton ws logs info) (iplong : ℕ → UInt32) {w : CStr}
    (hf : CopiesFit info.getstrPort (visits w)) :
    ∃ log info', History inetPton (w :: ws) (log :: logs) info' ∧
      (colons log = [] ↔ visits w = []) ∧
      info'.endpoint = info.endpoint.parse inetPton iplong w := by
  obtain ⟨log, info', hrun, hlog, -, he⟩ := initURIInfo_fits inetPton iplong w h.clean hf
  exact ⟨log, info', .call h _ w hrun fun e he => (hlog.ok e he).2, colons_eq_nil_iff hlog, he⟩

/-- **Histories are the sequences of URIs whose copies fit.** -/
theorem exists_iff : (∃ logs info, History inetPton ws logs info) ↔
    ∀ v ∈ pastVisits ws, v.1.length ≤ 17 ∧ v.2.length ≤ 5 := by
  constructor
  · rintro ⟨logs, info, h⟩
    induction h with
    | new => intro v hv; cases hv
    | call h iplong w hrun hfit ih =>
      intro v hv
      rcases List.mem_append.1 hv with hv | hv
      · rw [← h.getstrPort_eq] at hv
        exact (call_spec h.clean hrun).1 v hv
      · exact ih v hv
  · induction ws with
    | nil => exact fun _ => ⟨[], _, .new ⟨[], List.not_mem_nil⟩ 0 0⟩
    | cons w ws ih =>
      intro hfit
      have hfit' : ∀ v ∈ pastVisits ws, v.1.length ≤ 17 ∧ v.2.length ≤ 5 := by
        intro v hv
        exact hfit v (List.mem_append_right _ hv)
      obtain ⟨logs, info, h⟩ := ih hfit'
      have hf : CopiesFit info.getstrPort (visits w) := by
        intro v hv
        rw [h.getstrPort_eq] at hv
        exact hfit v (List.mem_append_left _ hv)
      obtain ⟨log, info', h', -, -⟩ := h.exists_call (fun _ => 0) hf
      exact ⟨log :: logs, info', h'⟩

end History

/-! ## Text and numbers agree -/

/-- The numbers are the texts, converted. -/
structure Agree (inetPton : InetPton) (e : Endpoint) : Prop where
  intPort : e.intPort = atoi e.strPort
  IPAddr : ∀ q, inetPton e.dotIPAddr = some q → e.IPAddr = intOctets q

/-- Every visit converts both texts. -/
theorem visit_agree (iplong : ℕ → UInt32) (e : Endpoint) (v : Visit) :
    Agree inetPton (e.visit inetPton iplong v) := by
  refine ⟨rfl, ?_⟩
  intro q hq
  exact octets_addrWord hq _

theorem parse_agree (iplong : ℕ → UInt32) {w : CStr} (hv : visits w ≠ []) (e : Endpoint) :
    Agree inetPton (e.parse inetPton iplong w) :=
  scanUntil_inv _ _ _ (fun e v _ => visit_agree iplong e v) hv

/-- The odd-port message is written iff the last visit left an odd port. -/
theorem nonEvenPort_mem_iff {port : List UInt8} {w : CStr} (hv : visits w ≠ []) :
    Msg.nonEvenPort ∈ parseMsgs port w ↔
      oddPort (atoi (scanUntil portStep portStop port (visits w))) = true := by
  have hs : strstr w.bytes rtspHead ≠ none := by
    intro hs
    rw [visits, hs] at hv; exact hv rfl
  have hodd : oddExit port (visits w) =
      portStop (scanUntil portStep portStop port (visits w)) := stopped_eq_stop _ _ _ hv
  rw [parseMsgs, if_neg hs, hodd, portStop]
  split_ifs with h
  · simp [h]
  · simp [h]

theorem even_of_not_oddPort {n : ℤ} (h : ¬ oddPort n = true) : Even n :=
  Int.not_odd_iff_even.1 (mt oddPort_eq_true_iff.2 h)

/-- The log of the latest call that visited a colon. -/
def lastVisit (logs : List (List Ev)) : Option (List Ev) :=
  logs.find? fun log => colons log ≠ []

theorem exists_lastVisit {logs : List (List Ev)} (hv : ∃ log ∈ logs, colons log ≠ []) :
    ∃ last, lastVisit logs = some last := by
  obtain ⟨log, hmem, hlog⟩ := hv
  exact Option.isSome_iff_exists.1 (List.find?_isSome.2 ⟨log, hmem, by simpa using hlog⟩)

namespace History

/-- The state after the latest call that visited a colon. -/
theorem of_lastVisit (h : History inetPton ws logs info) {last : List Ev}
    (hlast : lastVisit logs = some last) :
    Agree inetPton info.endpoint ∧ (.cout .nonEvenPort ∈ last ∨ Even info.intPort) := by
  induction h with
  | new => cases hlast
  | @call ws logs info info' log flag h iplong w hrun hfit ih =>
    obtain ⟨-, hlog, -, he⟩ := call_spec h.clean hrun
    rw [lastVisit, List.find?_cons] at hlast
    by_cases hv : visits w = []
    · -- the call did not touch the endpoint
      have hnil : colons log = [] := (colons_eq_nil_iff hlog).2 hv
      simp only [hnil, ne_eq, not_true_eq_false, decide_false] at hlast
      rw [Endpoint.parse_of_visits_eq_nil inetPton iplong hv] at he
      have hint : info'.intPort = info.intPort := congrArg Endpoint.intPort he
      rw [he, hint]; exact ih hlast
    · have hcons : colons log ≠ [] := mt (colons_eq_nil_iff hlog).1 hv
      simp only [hcons, ne_eq, not_false_eq_true, decide_true, Option.some.injEq] at hlast
      have hagree : Agree inetPton info'.endpoint := he ▸ parse_agree iplong hv _
      refine ⟨hagree, ?_⟩
      rw [← hlast, ← mem_couts, hlog.couts, nonEvenPort_mem_iff hv]
      have hport : scanUntil portStep portStop info.getstrPort (visits w) = info'.getstrPort := by
        have := congrArg Endpoint.strPort he
        rw [Endpoint.parse_strPort] at this
        exact this.symm
      rw [hport, ← show info'.intPort = atoi info'.getstrPort from hagree.intPort]
      exact (em _).imp_right even_of_not_oddPort

/-- **The textual and the numeric endpoint agree** once a colon has been visited. -/
theorem consistent (h : History inetPton ws logs info) (hv : ∃ log ∈ logs, colons log ≠ []) :
    info.getintPort = atoi info.getstrPort ∧
      (∀ q, inetPton info.getDotIPAddr = some q → ∀ j, info.getIPAddr j = (q j).toNat) ∧
      ((∃ last, lastVisit logs = some last ∧ .cout .nonEvenPort ∈ last) ∨
        Even info.getintPort) := by
  obtain ⟨last, hlast⟩ := exists_lastVisit hv
  obtain ⟨hagree, hparity⟩ := h.of_lastVisit hlast
  exact ⟨hagree.intPort, fun q hq => congrFun (hagree.IPAddr q hq),
    hparity.imp_left fun hm => ⟨last, hlast, hm⟩⟩

end History

/-- One call on a fresh object. -/
theorem liveURI_history : ∃ log info, History strictInetPton [liveURI] [log] info ∧
    colons log = [20] ∧
    info.endpoint = Endpoint.parse strictInetPton (fun _ => 0) liveURI ⟨[], 0, [], 0⟩ := by
  obtain ⟨log, info, hrun, hlog, -, he⟩ := initURIInfo_fits strictInetPton (fun _ => 0) liveURI
    (URIInfo.new_clean liveURI 0 0) (liveURI_names.copiesFit (by decide) _)
  rw [URIInfo.new_endpoint] at he
  refine ⟨log, info, .call (.new liveURI 0 0) _ _ hrun fun e he => (hlog.ok e he).2, ?_, he⟩
  rw [hlog.colons, URIInfo.new_getstrPort]; rfl

/-- A long text, a short one and a long one again: the short one leaves a tail. -/
theorem exists_threeCalls : ∃ logs info₂ info, History strictInetPton [plainURI, liveURI]
      logs.tail info₂ ∧ info₂.getDotIPAddr = ascii "1.2.3.4.1.115" ∧
    History strictInetPton [liveURI, plainURI, liveURI] logs info ∧
    (∃ log ∈ logs.tail, colons log ≠ []) ∧
    info.getDotIPAddr = dottedQuad ![192, 168, 1, 115] := by
  obtain ⟨log₁, info₁, h₁, hcolons, he₁⟩ := liveURI_history
  obtain ⟨log₂, info₂, h₂, -, he₂⟩ :=
    h₁.exists_call (fun _ => 0) (plainURI_names.copiesFit List.not_mem_nil _)
  obtain ⟨log₃, info₃, h₃, -, he₃⟩ :=
    h₂.exists_call (fun _ => 0) (liveURI_names.copiesFit (by decide) _)
  rw [he₁] at he₂
  rw [he₂] at he₃
  refine ⟨[log₃, log₂, log₁], info₂, info₃, h₂, ?_, h₃, ⟨log₁, by simp, by simp [hcolons]⟩, ?_⟩
  · rw [show info₂.getDotIPAddr = info₂.endpoint.dotIPAddr from rfl, he₂]; rfl
  · rw [show info₃.getDotIPAddr = info₃.endpoint.dotIPAddr from rfl, he₃]; rfl

/-- Two states of one object: one with a tail that `inet_pton` refuses, and one with an address. -/
theorem consistent_liveURI : ∃ logs info₂ info,
    History strictInetPton [plainURI, liveURI] logs.tail info₂ ∧
    info₂.getDotIPAddr = ascii "1.2.3.4.1.115" ∧
    info₂.getintPort = atoi info₂.getstrPort ∧
    History strictInetPton [liveURI, plainURI, liveURI] logs info ∧
    info.getintPort = atoi info.getstrPort ∧
    (∀ j, info.getIPAddr j = ((![192, 168, 1, 115] : Bytes4) j).toNat) ∧
    ((∃ last, lastVisit logs = some last ∧ .cout .nonEvenPort ∈ last) ∨
      Even info.getintPort) := by
  obtain ⟨logs, info₂, info, h₂, htail, h, ⟨log, hmem, hlog⟩, hdot⟩ := exists_threeCalls
  obtain ⟨hport, hip, heven⟩ := h.consistent ⟨log, List.mem_of_mem_tail hmem, hlog⟩
  have hq : strictInetPton info.getDotIPAddr = some ![192, 168, 1, 115] := by
    rw [hdot]; exact strictInetPton_lawful.quad _
  exact ⟨logs, info₂, info, h₂, htail, (h₂.consistent ⟨log, hmem, hlog⟩).1, h, hport, hip _ hq,
    heven⟩

/-! ## What earlier calls leave behind -/

theorem visitAll_length_le_iff (inetPton : InetPton) (iplong : ℕ → UInt32) (e : Endpoint)
    (vs : List Visit) (m n : ℕ) :
    ((e.visitAll inetPton iplong vs).dotIPAddr.length ≤ m ∧
      (e.visitAll inetPton iplong vs).strPort.length ≤ n) ↔
    (e.dotIPAddr.length ≤ m ∧ e.strPort.length ≤ n) ∧
      ∀ v ∈ portVisits e.strPort vs, v.1.length ≤ m ∧ v.2.length ≤ n := by
  have hd := scanUntil_le_iff (Endpoint.visit inetPton iplong) Endpoint.odd
    (m := fun e => e.dotIPAddr.length) (k := fun v => v.1.length)
    (fun e v => length_overlay v.1 e.dotIPAddr) (n := m) e vs
  have hp := scanUntil_le_iff (Endpoint.visit inetPton iplong) Endpoint.odd
    (m := fun e => e.strPort.length) (k := fun v => v.2.length)
    (fun e v => length_overlay v.2 e.strPort) (n := n) e vs
  rw [(Endpoint.visitAll_port e vs).2.1] at hd hp
  rw [Endpoint.visitAll, hd, hp]
  constructor
  · rintro ⟨⟨hd, hvd⟩, hp, hvp⟩
    exact ⟨⟨hd, hp⟩, fun v hv => ⟨hvd v hv, hvp v hv⟩⟩
  · rintro ⟨⟨hd, hp⟩, hv⟩
    exact ⟨⟨hd, fun v h => (hv v h).1⟩, hp, fun v h => (hv v h).2⟩

namespace History

/-- The texts are as long as the longest ones visited. -/
theorem length_le_iff (h : History inetPton ws logs info) (m n : ℕ) :
    info.getDotIPAddr.length ≤ m ∧ info.getstrPort.length ≤ n ↔
      ∀ v ∈ pastVisits ws, v.1.length ≤ m ∧ v.2.length ≤ n := by
  induction h with
  | new URI IPAddr intPort =>
    simp [pastVisits, URIInfo.new, URIInfo.getDotIPAddr, URIInfo.getstrPort, Buf.zero_text]
  | @call ws logs info info' log flag h iplong w hrun hfit ih =>
    obtain ⟨-, -, -, he⟩ := call_spec h.clean hrun
    have hlen := visitAll_length_le_iff inetPton iplong info.endpoint (visits w) m n
    have hport : info.endpoint.strPort = endPort ws := h.getstrPort_eq
    have ih' : info.endpoint.dotIPAddr.length ≤ m ∧ info.endpoint.strPort.length ≤ n ↔
        ∀ v ∈ pastVisits ws, v.1.length ≤ m ∧ v.2.length ≤ n := ih
    rw [← Endpoint.parse, ← he, ih', hport] at hlen
    rw [pastVisits, List.forall_mem_append]
    exact hlen.trans and_comm

end History

/-- After a history, parsing `w` leaves what it leaves on a fresh object. -/
def SameAsFresh (inetPton : InetPton) (info : URIInfo) (w : CStr) : Prop :=
  ∀ iplong URI IPAddr intPort iplong', ∃ e,
    Leaves (initURIInfo inetPton iplong w info) e ∧
      Leaves (initURIInfo inetPton iplong' w (.new URI IPAddr intPort)) e

/-- **When earlier calls do not matter.** -/
theorem History.sameAsFresh_iff {w : CStr} {q : Bytes4} {p : ℕ} {r : List UInt8}
    (hquad : ∀ q, inetPton (dottedQuad q) = some q) (h : History inetPton ws logs info)
    (hn : Names w [] q p r) (hr : colon ∉ r) :
    SameAsFresh inetPton info w ↔
      ∀ v ∈ pastVisits ws,
        v.1.length ≤ (dottedQuad q).length ∧ v.2.length ≤ (decimal p).length := by
  rw [← h.length_le_iff]
  -- a fresh object gets the named endpoint
  have hfresh : ∀ {iplong URI IPAddr intPort e},
      Leaves (initURIInfo inetPton iplong w (.new URI IPAddr intPort)) e ↔
        ⟨dottedQuad q, intOctets q, decimal p, p⟩ = e := by
    intro iplong URI IPAddr intPort e
    rw [leaves_iff inetPton iplong w (URIInfo.new_clean URI IPAddr intPort), URIInfo.new_endpoint,
      hn.parse_eq hr, visit_new hquad]
    exact and_iff_right (hn.copiesFit hr _)
  have hold : ∀ {iplong e}, Leaves (initURIInfo inetPton iplong w info) e ↔
      info.endpoint.visit inetPton iplong (dottedQuad q, decimal p) = e := by
    intro iplong e
    rw [leaves_iff inetPton iplong w h.clean, hn.parse_eq hr]
    exact and_iff_right (hn.copiesFit hr _)
  constructor
  · intro hs
    obtain ⟨e, he, he'⟩ := hs (fun _ => 0) w 0 0 (fun _ => 0)
    rw [hold] at he
    rw [hfresh, ← he] at he'
    have hdot : overlay (dottedQuad q) info.getDotIPAddr = dottedQuad q :=
      (congrArg Endpoint.dotIPAddr he').symm
    have hport : overlay (decimal p) info.getstrPort = decimal p :=
      (congrArg Endpoint.strPort he').symm
    exact ⟨overlay_eq_left_iff.1 hdot, overlay_eq_left_iff.1 hport⟩
  · rintro ⟨hdot, hport⟩ iplong URI IPAddr intPort iplong'
    refine ⟨⟨dottedQuad q, intOctets q, decimal p, p⟩, hold.2 ?_, hfresh.2 rfl⟩
    have hd : overlay (dottedQuad q) info.endpoint.dotIPAddr = dottedQuad q :=
      overlay_of_length_le hdot
    have hp : overlay (decimal p) info.endpoint.strPort = decimal p := overlay_of_length_le hport
    simp only [Endpoint.visit, portStep, hd, hp, octets_addrWord (hquad q), atoi_decimal]

end

theorem sameAsFresh_plainURI_iff : ∃ log info, History strictInetPton [liveURI] [log] info ∧
    (SameAsFresh strictInetPton info plainURI ↔ ∀ v ∈ pastVisits [liveURI],
      v.1.length ≤ (dottedQuad ![1, 2, 3, 4]).length ∧ v.2.length ≤ (decimal 554).length) := by
  obtain ⟨log, info, h, -⟩ := liveURI_history
  exact ⟨log, info, h,
    h.sameAsFresh_iff strictInetPton_lawful.quad plainURI_names List.not_mem_nil⟩

/-- `1.2.3.4` is read back as `1.2.3.4.1.115`. -/
theorem not_sameAsFresh_plainURI : ∃ log info, History strictInetPton [liveURI] [log] info ∧
    Names plainURI [] ![1, 2, 3, 4] 554 [] ∧ ¬ SameAsFresh strictInetPton info plainURI := by
  obtain ⟨log, info, h, -, hinfo⟩ := liveURI_history
  refine ⟨log, info, h, plainURI_names, ?_⟩
  intro hs
  obtain ⟨e, he, he'⟩ := hs (fun _ => 0) plainURI 0 0 (fun _ => 0)
  rw [leaves_iff strictInetPton _ _ h.clean, hinfo] at he
  rw [leaves_iff strictInetPton _ _ (URIInfo.new_clean _ _ _), URIInfo.new_endpoint] at he'
  have hold : e.dotIPAddr = ascii "1.2.3.4.1.115" := by rw [← he.2]; rfl
  have hnew : e.dotIPAddr = ascii "1.2.3.4" := by rw [← he'.2]; rfl
  exact absurd (hold.symm.trans hnew) (by decide)

end RayionClient
