/-
  The endpoint, abstractly.

  A user of `URIInfo` sees four values, the endpoint.  Parsing visits the
  colons of the text after the scheme from left to right; a visit lays the text
  before the colon over the host, lays the text after it (up to the next `/`)
  over the port, and converts both.  Parsing ends at the first visit that leaves
  an odd port.  Which colons are visited depends on the port text only
  (`portVisits`), and so does whether all copies fit (`CopiesFit`).
-/
import RayionClient.Base.Scan
import RayionClient.URIParsing
import Mathlib.Algebra.Ring.Int.Parity

namespace RayionClient

open Base

/-- What the getters return. -/
@[ext] structure Endpoint where
  dotIPAddr : List UInt8
  IPAddr : Fin 4 → ℤ
  strPort : List UInt8
  intPort : ℤ

/-- The endpoint in an object. -/
def URIInfo.endpoint (info : URIInfo) : Endpoint where
  dotIPAddr := info.getDotIPAddr
  IPAddr := info.getIPAddr
  strPort := info.getstrPort
  intPort := info.getintPort

/-- The text before a colon, and the text after it up to the next `/`. -/
abbrev Visit := List UInt8 × List UInt8

/-- The colons of a URI after its scheme. -/
def visits (w : CStr) : List Visit :=
  match strstr w.bytes rtspHead with
  | some substr => cuts colon slash (substr.drop 7)
  | none => []

/-- The test `intPort % 2 != 0`. -/
def oddPort (port : ℤ) : Bool := port.tmod 2 ≠ 0

theorem oddPort_eq_true_iff {port : ℤ} : oddPort port = true ↔ Odd port := by
  rw [← Int.not_even_iff_odd, even_iff_two_dvd, Int.dvd_iff_tmod_eq_zero, oddPort,
    decide_eq_true_eq]

/-- The four bytes of an address word, as the code splits it. -/
def octets (iplong : UInt32) : Fin 4 → ℤ := fun j => (wordByte iplong j).toNat

/-! ## Which colons are visited -/

/-- The port text after a visit. -/
def portStep (port : List UInt8) (v : Visit) : List UInt8 := overlay v.2 port

/-- The loop ends at an odd port. -/
def portStop (port : List UInt8) : Bool := oddPort (atoi port)

/-- The visits made when the port text is `port` before. -/
def portVisits (port : List UInt8) (vs : List Visit) : List Visit :=
  reached portStep portStop port vs

/-- Whether parsing leaves through the odd-port exit. -/
def oddExit (port : List UInt8) (vs : List Visit) : Bool := stopped portStep portStop port vs

/-- Every visited colon has at most 17 bytes before it and at most 5 bytes of port text. -/
def CopiesFit (port : List UInt8) (vs : List Visit) : Prop :=
  ∀ v ∈ portVisits port vs, v.1.length ≤ 17 ∧ v.2.length ≤ 5

/-- Whether the copies fit can be computed. -/
instance (port : List UInt8) (vs : List Visit) : Decidable (CopiesFit port vs) :=
  inferInstanceAs (Decidable (∀ v ∈ portVisits port vs, _))

theorem copiesFit_cons {port : List UInt8} {v : Visit} {vs : List Visit} :
    CopiesFit port (v :: vs) ↔ (v.1.length ≤ 17 ∧ v.2.length ≤ 5) ∧
      (portStop (portStep port v) = false → CopiesFit (portStep port v) vs) := by
  unfold CopiesFit portVisits
  rw [reached]
  constructor
  · intro h
    refine ⟨h v (List.mem_cons_self ..), fun hs v' hv' => h v' (List.mem_cons_of_mem _ ?_)⟩
    rwa [if_neg (by simp [hs])]
  · rintro ⟨hv, hvs⟩ v' hv'
    rcases List.mem_cons.1 hv' with rfl | hv'
    · exact hv
    · split_ifs at hv' with hs
      · simp at hv'
      · exact hvs (by simpa using hs) v' hv'

/-- Texts that fit whatever has been copied before. -/
theorem copiesFit_of_forall {port : List UInt8} {vs : List Visit}
    (h : ∀ v ∈ vs, v.1.length ≤ 17 ∧ v.2.length ≤ 5) : CopiesFit port vs :=
  fun v hv => h v ((prefix_reached _ _ _ _).subset hv)

/-! ## Parsing -/

namespace Endpoint

section
variable (inetPton : InetPton) (iplong : ℕ → UInt32)

/-- One visit: both texts are laid over the old ones, and converted. -/
def visit (e : Endpoint) (v : Visit) : Endpoint where
  dotIPAddr := overlay v.1 e.dotIPAddr
  IPAddr := octets (addrWord inetPton (overlay v.1 e.dotIPAddr) (iplong (7 + v.1.length)))
  strPort := portStep e.strPort v
  intPort := atoi (portStep e.strPort v)

/-- The loop ends here. -/
def odd (e : Endpoint) : Bool := portStop e.strPort

/-- The visits of a URI. -/
def visitAll (e : Endpoint) (vs : List Visit) : Endpoint :=
  scanUntil (visit inetPton iplong) odd e vs

/-- **Parsing a URI.** -/
def parse (w : CStr) (e : Endpoint) : Endpoint := e.visitAll inetPton iplong (visits w)

end

variable {inetPton : InetPton} {iplong : ℕ → UInt32}

/-- The port text evolves by itself, and alone decides where parsing ends. -/
theorem visitAll_port (e : Endpoint) (vs : List Visit) :
    (e.visitAll inetPton iplong vs).strPort = scanUntil portStep portStop e.strPort vs ∧
      reached (visit inetPton iplong) odd e vs = portVisits e.strPort vs ∧
      stopped (visit inetPton iplong) odd e vs = oddExit e.strPort vs :=
  scanUntil_hom (f := Endpoint.strPort) (fun _ _ => rfl) (fun _ => rfl) e vs

theorem parse_strPort (inetPton : InetPton) (iplong : ℕ → UInt32) (w : CStr) (e : Endpoint) :
    (e.parse inetPton iplong w).strPort = scanUntil portStep portStop e.strPort (visits w) :=
  (visitAll_port e (visits w)).1

/-- Parsing ends with an odd port iff it leaves through the exit for it. -/
theorem portStop_parse (inetPton : InetPton) (iplong : ℕ → UInt32) {w : CStr}
    (hv : visits w ≠ []) (e : Endpoint) :
    portStop (e.parse inetPton iplong w).strPort = oddExit e.strPort (visits w) := by
  rw [parse_strPort, oddExit, stopped_eq_stop portStep portStop _ hv]

theorem parse_of_visits_eq_nil (inetPton : InetPton) (iplong : ℕ → UInt32) {w : CStr}
    (hv : visits w = []) (e : Endpoint) : e.parse inetPton iplong w = e := by
  rw [parse, hv]; rfl

/-- Every visit converts the host text, so the last one does. -/
theorem parse_IPAddr (inetPton : InetPton) {w : CStr} (hv : visits w ≠ []) (x : UInt32)
    (e : Endpoint) :
    (e.parse inetPton (fun _ => x) w).IPAddr =
      octets (addrWord inetPton (e.parse inetPton (fun _ => x) w).dotIPAddr x) :=
  scanUntil_inv (P := fun e : Endpoint => e.IPAddr = octets (addrWord inetPton e.dotIPAddr x)) _ _ _
    (fun _ _ _ => rfl) hv

/-- Every visit converts the port text, too. -/
theorem parse_intPort (inetPton : InetPton) (iplong : ℕ → UInt32) {w : CStr}
    (hv : visits w ≠ []) (e : Endpoint) :
    (e.parse inetPton iplong w).intPort = atoi (e.parse inetPton iplong w).strPort :=
  scanUntil_inv (P := fun e : Endpoint => e.intPort = atoi e.strPort) _ _ _ (fun _ _ _ => rfl) hv

end Endpoint

/-! ## The first colon -/

/-- What follows a colon, up to the next `/`. -/
abbrev portText (r : List UInt8) : List UInt8 := r.takeWhile (· ≠ slash)

theorem visits_of_firstAt {w : CStr} {u t : List UInt8}
    (h : FirstAt w.bytes rtspHead u (rtspHead ++ t)) : visits w = cuts colon slash t := by
  rw [visits, h.strstr]; rfl

theorem visits_ne_nil_of_mem {w : CStr} {u t : List UInt8}
    (h : FirstAt w.bytes rtspHead u (rtspHead ++ t)) (ht : colon ∈ t) : visits w ≠ [] := by
  rw [visits_of_firstAt h]; exact cutsFrom_ne_nil colon slash ht []

/-- The first colon after the scheme stands between `host` and `r`. -/
structure FirstColon (w : CStr) (host r : List UInt8) : Prop where
  split : ∃ u, FirstAt w.bytes rtspHead u (rtspHead ++ (host ++ colon :: r))
  host : colon ∉ host

theorem exists_firstColon {w : CStr} (hv : visits w ≠ []) : ∃ host r, FirstColon w host r := by
  unfold visits at hv
  cases hs : strstr w.bytes rtspHead with
  | none => simp only [hs] at hv; exact absurd rfl hv
  | some substr =>
    obtain ⟨u, hu⟩ := strstr_eq_some_iff.1 hs
    obtain ⟨t, rfl⟩ := hu.2.1
    have ht : colon ∈ t := by
      by_contra ht
      simp only [hs] at hv
      exact hv (cutsFrom_of_notMem colon slash ht [])
    obtain ⟨host, r, rfl, hhost⟩ := List.eq_append_cons_of_mem ht
    exact ⟨host, r, ⟨u, hu⟩, hhost⟩

namespace FirstColon
variable {w : CStr} {host r : List UInt8} {inetPton : InetPton} {iplong : ℕ → UInt32}

theorem visits_eq (h : FirstColon w host r) :
    visits w = (host, portText r) :: cutsFrom colon slash (host ++ [colon]) r := by
  obtain ⟨u, hu⟩ := h.split
  rw [visits_of_firstAt hu, cuts_append_cons colon slash h.host]

theorem visits_eq_singleton (h : FirstColon w host r) (hr : colon ∉ r) :
    visits w = [(host, portText r)] := by
  rw [h.visits_eq, cutsFrom_of_notMem colon slash hr]

theorem copiesFit (h : FirstColon w host r) (hr : colon ∉ r) (hhost : host.length ≤ 17)
    (hport : (portText r).length ≤ 5) (port : List UInt8) : CopiesFit port (visits w) := by
  refine copiesFit_of_forall ?_
  intro v hv
  rw [h.visits_eq_singleton hr] at hv
  rw [List.mem_singleton.1 hv]; exact ⟨hhost, hport⟩

/-- Parsing that ends at the first colon. -/
theorem parse_eq (h : FirstColon w host r) (e : Endpoint)
    (hlast : colon ∉ r ∨ portStop (portStep e.strPort (host, portText r)) = true) :
    e.parse inetPton iplong w = e.visit inetPton iplong (host, portText r) := by
  rw [Endpoint.parse, Endpoint.visitAll, h.visits_eq, scanUntil]
  rcases hlast with hr | hstop
  · rw [cutsFrom_of_notMem colon slash hr]; exact ite_self _
  · exact if_pos hstop

/-- An empty port text becomes the one copied. -/
theorem portStop_new : portStop (portStep [] (host, portText r)) = true ↔
    Odd (atoi (portText r)) := by
  rw [portStep, overlay_nil, portStop, oddPort_eq_true_iff]

/-- The same from empty texts. -/
theorem parse_new (h : FirstColon w host r) (hlast : colon ∉ r ∨ Odd (atoi (portText r)))
    (inetPton : InetPton) (iplong : ℕ → UInt32) (IPAddr : Fin 4 → ℤ) (intPort : ℤ) :
    Endpoint.parse inetPton iplong w ⟨[], IPAddr, [], intPort⟩ =
      ⟨host, octets (addrWord inetPton host (iplong (7 + host.length))), portText r,
        atoi (portText r)⟩ := by
  rw [h.parse_eq _ (hlast.imp_right portStop_new.2)]
  simp only [Endpoint.visit, portStep, overlay_nil]

/-- Parsing that goes on leaves a colon in the host text. -/
theorem colon_mem (h : FirstColon w host r) (inetPton : InetPton) (iplong : ℕ → UInt32)
    (e : Endpoint) (hr : colon ∈ r)
    (hgo : portStop (portStep e.strPort (host, portText r)) = false) :
    colon ∈ (e.parse inetPton iplong w).dotIPAddr := by
  rw [Endpoint.parse, Endpoint.visitAll, h.visits_eq, scanUntil]
  have hodd : (e.visit inetPton iplong (host, portText r)).odd = false := hgo
  rw [hodd, if_neg Bool.false_ne_true]
  refine scanUntil_inv (P := fun e : Endpoint => colon ∈ e.dotIPAddr) _ _ _ ?_
    (cutsFrom_ne_nil colon slash hr _)
  intro e v hv
  have hmem : colon ∈ v.1 := (prefix_of_mem_cutsFrom colon slash hv).subset (by simp)
  exact List.mem_append_left _ hmem

end FirstColon

end RayionClient
