/-
  URIs that name an endpoint, and what parsing them gives.

  `Names w u q p r`: the string `w` is `u`, the scheme, the address `q` and the
  port `p` in canonical decimal, and a tail `r`.  Its first visit finds exactly
  the address and the port (`visits_eq`), so parsing inverts printing if no
  other colon follows (`initURIInfo_roundTrip`).
-/
import RayionClient.Refinement

namespace RayionClient

open Base

/-- `w = u rtsp://a.b.c.d:p r`, where this is the first `rtsp://` and `r` is empty or starts
    with `/`. -/
structure Names (w : CStr) (u : List UInt8) (q : Bytes4) (p : ℕ) (r : List UInt8) : Prop where
  eq : w.bytes = u ++ (rtspHead ++ (dottedQuad q ++ colon :: (decimal p ++ r)))
  first : ∀ v, v ++ rtspHead <+: w.bytes → u.length ≤ v.length
  port_le : p ≤ 65535
  tail : r = [] ∨ r.head? = some slash

namespace Names
variable {w : CStr} {u : List UInt8} {q : Bytes4} {p : ℕ} {r : List UInt8}

theorem takeWhile_port (h : Names w u q p r) :
    (decimal p ++ r).takeWhile (· ≠ slash) = decimal p := by
  have hd : ∀ c ∈ decimal p, decide (c ≠ slash) = true := fun c hc => by
    simpa using fun h0 : c = slash => notMem_decimal (c := slash) rfl p (h0 ▸ hc)
  rw [List.takeWhile_append_of_pos hd]
  rcases h.tail with rfl | ht
  · simp
  · obtain ⟨r', rfl⟩ : ∃ r', r = slash :: r' := by
      cases r with
      | nil => cases ht
      | cons c r' => cases ht; exact ⟨r', rfl⟩
    simp

/-- The first colon stands behind the address. -/
theorem firstColon (h : Names w u q p r) : FirstColon w (dottedQuad q) (decimal p ++ r) where
  split := ⟨u, h.eq, List.prefix_append _ _, h.first⟩
  host := notMem_dottedQuad rfl (by decide) q

theorem colon_notMem (hr : colon ∉ r) : colon ∉ decimal p ++ r :=
  fun h => (List.mem_append.1 h).elim (notMem_decimal rfl p) hr

/-- The first visit finds the address and the port. -/
theorem visits_eq (h : Names w u q p r) : visits w = (dottedQuad q, decimal p) ::
    cutsFrom colon slash (dottedQuad q ++ [colon] ++ decimal p) r := by
  rw [h.firstColon.visits_eq, portText, h.takeWhile_port,
    cutsFrom_append _ _ _ _ _ (notMem_decimal rfl p)]

theorem visits_eq_singleton (h : Names w u q p r) (hr : colon ∉ r) :
    visits w = [(dottedQuad q, decimal p)] := by
  rw [h.firstColon.visits_eq_singleton (colon_notMem hr), portText, h.takeWhile_port]

theorem length_port_le (h : Names w u q p r) : (decimal p).length ≤ 5 :=
  length_decimal_le (by omega) (by have := h.port_le; omega)

/-- Both copies of the first visit fit. -/
theorem fits (h : Names w u q p r) :
    (dottedQuad q).length ≤ 17 ∧ (decimal p).length ≤ 5 :=
  ⟨(length_dottedQuad_le q).trans (by omega), h.length_port_le⟩

theorem copiesFit (h : Names w u q p r) (hr : colon ∉ r) (port : List UInt8) :
    CopiesFit port (visits w) := by
  refine h.firstColon.copiesFit (colon_notMem hr) h.fits.1 ?_ port
  rw [portText, h.takeWhile_port]; exact h.fits.2

end Names

/-- The octets of an address, as the getter returns them. -/
def intOctets (q : Bytes4) : Fin 4 → ℤ := fun j => (q j).toNat

theorem octets_loadLE (q : Bytes4) : octets (loadLE q) = intOctets q := by
  funext j; rw [octets, wordByte_loadLE]; rfl

/-- An accepted text leaves its four bytes, whatever the word held before. -/
theorem octets_addrWord {inetPton : InetPton} {text : List UInt8} {q : Bytes4}
    (h : inetPton text = some q) (iplong : UInt32) :
    octets (addrWord inetPton text iplong) = intOctets q := by
  rw [addrWord, h]; exact octets_loadLE q

section
variable {inetPton : InetPton} {iplong : ℕ → UInt32} {w : CStr} {u : List UInt8} {q : Bytes4}
  {p : ℕ} {r : List UInt8}

/-- Parsing a URI with one colon is one visit. -/
theorem Names.parse_eq (h : Names w u q p r) (hr : colon ∉ r) (e : Endpoint) :
    e.parse inetPton iplong w = e.visit inetPton iplong (dottedQuad q, decimal p) := by
  rw [Endpoint.parse, Endpoint.visitAll, h.visits_eq_singleton hr, scanUntil_singleton]

/-- One visit from empty texts. -/
theorem visit_new (hquad : ∀ q, inetPton (dottedQuad q) = some q) (IPAddr : Fin 4 → ℤ)
    (intPort : ℤ) :
    (Endpoint.mk [] IPAddr [] intPort).visit inetPton iplong (dottedQuad q, decimal p) =
      ⟨dottedQuad q, intOctets q, decimal p, p⟩ := by
  simp [Endpoint.visit, portStep, octets_addrWord (hquad q), atoi_decimal]

/-- **Parsing inverts printing.** -/
theorem initURIInfo_roundTrip (hquad : ∀ q, inetPton (dottedQuad q) = some q)
    (h : Names w u q p r) (hr : colon ∉ r) (URI : CStr) (IPAddr : Fin 4 → ℤ) (intPort : ℤ)
    (iplong : ℕ → UInt32) :
    ∃ log flag info, initURIInfo inetPton iplong w (.new URI IPAddr intPort) =
        ⟨log, some (flag, info)⟩ ∧
      info.getDotIPAddr = dottedQuad q ∧ (∀ j, info.getIPAddr j = (q j).toNat) ∧
      info.getstrPort = decimal p ∧ info.getintPort = p ∧ (∀ e ∈ log, e.InBounds) ∧
      info.dotIPAddr.Terminated ∧ info.strPort.Terminated := by
  obtain ⟨log, info, hrun, hlog, hc, he⟩ := initURIInfo_fits inetPton iplong w
    (URIInfo.new_clean URI IPAddr intPort) (h.copiesFit hr _)
  rw [URIInfo.new_endpoint, h.parse_eq hr, visit_new hquad] at he
  exact ⟨log, -1, info, hrun, congrArg Endpoint.dotIPAddr he,
    congrFun (congrArg Endpoint.IPAddr he), congrArg Endpoint.strPort he,
    congrArg Endpoint.intPort he, fun e h => (hlog.ok e h).1, hc.dotIPAddr.terminated,
    hc.strPort.terminated⟩

/-- The URI that the client is built with. -/
def liveURI : CStr := ⟨ascii "rtsp://192.168.1.115:554/live", by decide⟩

theorem liveURI_names : Names liveURI [] ![192, 168, 1, 115] 554 (ascii "/live") :=
  ⟨rfl, fun _ _ => Nat.zero_le _, by omega, Or.inr rfl⟩

/-- A URI without a path. -/
def plainURI : CStr := ⟨ascii "rtsp://1.2.3.4:554", by decide⟩

theorem plainURI_names : Names plainURI [] ![1, 2, 3, 4] 554 [] :=
  ⟨rfl, fun _ _ => Nat.zero_le _, by omega, Or.inl rfl⟩

theorem initURIInfo_liveURI :
    ∃ log flag info, initURIInfo strictInetPton (fun _ => 0) liveURI (.new liveURI 0 0) =
        ⟨log, some (flag, info)⟩ ∧
      info.getDotIPAddr = dottedQuad ![192, 168, 1, 115] ∧
      (∀ j, info.getIPAddr j = ((![192, 168, 1, 115] : Bytes4) j).toNat) ∧
      info.getstrPort = decimal 554 ∧ info.getintPort = (554 : ℕ) ∧ (∀ e ∈ log, e.InBounds) ∧
      info.dotIPAddr.Terminated ∧ info.strPort.Terminated :=
  initURIInfo_roundTrip strictInetPton_lawful.quad liveURI_names (by decide) _ _ _ _

end

end RayionClient
