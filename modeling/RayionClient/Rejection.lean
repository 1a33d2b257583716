/-
  Calls that end with an error message.

  A URI without the scheme is refused before anything is written.  An odd port
  is refused after both texts have been copied and converted, so such a call
  leaves its own endpoint behind.  It changes nothing only if it writes what is
  there already: the texts at the first colon begin the texts of the object,
  which hold an address and an odd port (`History.untouched_iff`).
-/
import RayionClient.History
import RayionClient.Indeterminate

namespace RayionClient

open Base

/-- The run takes one of the two error exits. -/
def Rejects (run : Exec Ev (ℤ × URIInfo)) : Prop :=
  (∃ flag info', run.out = some (flag, info')) ∧ couts run.log ≠ []

/-- The getters return the same before and after a call for `w`. -/
def Untouched (inetPton : InetPton) (w : CStr) (info : URIInfo) : Prop :=
  ∀ iplong, Leaves (initURIInfo inetPton iplong w info) info.endpoint

/-- The object holds an address and an odd port, and the texts at the first colon begin its
    texts. -/
def Repeats (inetPton : InetPton) (w : CStr) (e : Endpoint) : Prop :=
  ∃ host r, FirstColon w host r ∧ host <+: e.dotIPAddr ∧ portText r <+: e.strPort ∧
    (∃ q, inetPton e.dotIPAddr = some q) ∧ Odd e.intPort

section
variable {inetPton : InetPton} {iplong : ℕ → UInt32} {w : CStr} {info : URIInfo} {e : Endpoint}

theorem parseMsgs_ne_nil {port : List UInt8} :
    parseMsgs port w ≠ [] ↔ strstr w.bytes rtspHead = none ∨ oddExit port (visits w) = true := by
  unfold parseMsgs
  split_ifs with hs hodd
  · simp [hs]
  · simp [hodd]
  · simp [hs, hodd]

theorem rejects_iff (hc : info.Clean) : Rejects (initURIInfo inetPton iplong w info) ↔
    CopiesFit info.getstrPort (visits w) ∧ (strstr w.bytes rtspHead = none ∨
      oddExit info.getstrPort (visits w) = true) := by
  rw [← parseMsgs_ne_nil]
  by_cases hf : CopiesFit info.getstrPort (visits w)
  · obtain ⟨log, info', hrun, hlog, -, -⟩ := initURIInfo_fits inetPton iplong w hc hf
    rw [Rejects, hrun, hlog.couts]
    exact and_congr_left' (iff_of_true ⟨-1, info', rfl⟩ hf)
  · have hnone := (initURIInfo_overflow inetPton iplong w hc hf).1
    refine iff_of_false ?_ fun h => hf h.1
    rintro ⟨⟨flag, info', hout⟩, -⟩
    rw [hnone] at hout; cases hout

/-- **When parsing up to an odd port changes nothing.** -/
theorem Agree.parse_eq_self_iff (ha : Agree inetPton e)
    (hcolon : ∀ t, colon ∈ t → inetPton t = none) (hodd : oddExit e.strPort (visits w) = true) :
    (∀ iplong, e.parse inetPton iplong w = e) ↔ Repeats inetPton w e := by
  have hstop : portStop e.strPort = true ↔ Odd e.intPort := by
    rw [ha.intPort]; exact oddPort_eq_true_iff
  constructor
  · intro h
    have hv : visits w ≠ [] := by
      intro hv
      rw [hv] at hodd; cases hodd
    obtain ⟨host, r, hf⟩ := exists_firstColon hv
    obtain ⟨q, hq⟩ := exists_address_of_parse hv fun x => h fun _ => x
    have hq' : inetPton (e.parse inetPton (fun _ => 0) w).dotIPAddr = some q := by
      rw [h]; exact hq
    have hlast := hf.last_of_address hcolon hq'
    have hvisit : e.visit inetPton (fun _ => 0) (host, portText r) = e :=
      (hf.parse_eq e hlast).symm.trans (h _)
    have hend : portStop e.strPort = true := by
      rw [← hodd, ← Endpoint.portStop_parse inetPton (fun _ => 0) hv, h]
    exact ⟨host, r, hf, overlay_eq_right_iff.1 (congrArg Endpoint.dotIPAddr hvisit),
      overlay_eq_right_iff.1 (congrArg Endpoint.strPort hvisit), ⟨q, hq⟩, hstop.1 hend⟩
  · rintro ⟨host, r, hf, hhost, hport, ⟨q, hq⟩, hint⟩ iplong
    have hd : overlay host e.dotIPAddr = e.dotIPAddr := overlay_eq_right_iff.2 hhost
    have hp : portStep e.strPort (host, portText r) = e.strPort := overlay_eq_right_iff.2 hport
    rw [hf.parse_eq e (Or.inr (by rw [hp]; exact hstop.2 hint))]
    ext1
    · exact hd
    · rw [Endpoint.visit, hd, octets_addrWord hq, ha.IPAddr q hq]
    · exact hp
    · rw [Endpoint.visit, hp, ha.intPort]

/-- **When a refused URI leaves the endpoint untouched.** -/
theorem History.untouched_iff {ws : List CStr} {logs : List (List Ev)}
    (hcolon : ∀ t, colon ∈ t → inetPton t = none) (h : History inetPton ws logs info)
    (hv : ∃ log ∈ logs, colons log ≠ []) (hrej : Rejects (initURIInfo inetPton iplong w info)) :
    Untouched inetPton w info ↔
      strstr w.bytes rtspHead = none ∨ Repeats inetPton w info.endpoint := by
  obtain ⟨last, hlast⟩ := exists_lastVisit hv
  obtain ⟨hagree, -⟩ := h.of_lastVisit hlast
  obtain ⟨hfit, hexit⟩ := (rejects_iff h.clean).1 hrej
  have hun : Untouched inetPton w info ↔ ∀ iplong, info.endpoint.parse inetPton iplong w =
      info.endpoint := by
    refine forall_congr' ?_
    intro iplong
    rw [leaves_iff inetPton iplong w h.clean]
    exact and_iff_right hfit
  rw [hun]
  by_cases hs : strstr w.bytes rtspHead = none
  · have hnil : visits w = [] := by rw [visits, hs]
    exact iff_of_true (fun iplong => Endpoint.parse_of_visits_eq_nil _ _ hnil _) (Or.inl hs)
  · rw [hagree.parse_eq_self_iff hcolon (hexit.resolve_left hs)]
    exact (or_iff_right hs).symm

end

/-! ## An odd port -/

/-- A URI with an odd port. -/
def oddURI : CStr := ⟨ascii "rtsp://1.2.3.4:555", by decide⟩

/-- The text 555 covers the port text 554. -/
theorem oddURI_rejected {log : List Ev} {info : URIInfo}
    (h : History strictInetPton [liveURI] [log] info) (iplong : ℕ → UInt32) :
    Rejects (initURIInfo strictInetPton iplong oddURI info) := by
  rw [rejects_iff h.clean, h.getstrPort_eq]; decide

theorem untouched_oddURI_iff : ∃ log info, History strictInetPton [liveURI] [log] info ∧
    (Untouched strictInetPton oddURI info ↔
      strstr oddURI.bytes rtspHead = none ∨ Repeats strictInetPton oddURI info.endpoint) := by
  obtain ⟨log, info, h, hcolons, -⟩ := liveURI_history
  exact ⟨log, info, h, h.untouched_iff strictInetPton_lawful.colon
    ⟨log, by simp, by simp [hcolons]⟩ (oddURI_rejected h fun _ => 0)⟩

/-- The port 554 is replaced by 555. -/
theorem not_untouched_oddURI : ∃ log info, History strictInetPton [liveURI] [log] info ∧
    colons log ≠ [] ∧ (∀ iplong, Rejects (initURIInfo strictInetPton iplong oddURI info)) ∧
    ¬ Untouched strictInetPton oddURI info := by
  obtain ⟨log, info, h, hcolons, hinfo⟩ := liveURI_history
  refine ⟨log, info, h, by simp [hcolons], oddURI_rejected h, ?_⟩
  intro hun
  have hsame := (leaves_iff strictInetPton _ _ h.clean _).1 (hun fun _ => 0)
  have hint := congrArg Endpoint.intPort hsame.2
  rw [hinfo] at hint
  revert hint; decide

end RayionClient
