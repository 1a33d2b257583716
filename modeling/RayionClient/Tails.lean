/-
  What follows the port.

  The loop of `ParseURI` goes on behind the authority, and repeats everything at
  each further `:`.  The text before such a colon is not an address any more, so
  `inet_pton` refuses it and the getters return what `iplong` held before.
-/
import RayionClient.RoundTrip

namespace RayionClient

open Base

/-- Two fresh objects that parse `w₁` and `w₂` get the same endpoint, whatever their memory
    holds. -/
def SameEndpoint (inetPton : InetPton) (w₁ w₂ : CStr) : Prop :=
  ∀ URI₁ IPAddr₁ intPort₁ iplong₁ URI₂ IPAddr₂ intPort₂ iplong₂, ∃ e,
    Leaves (initURIInfo inetPton iplong₁ w₁ (.new URI₁ IPAddr₁ intPort₁)) e ∧
      Leaves (initURIInfo inetPton iplong₂ w₂ (.new URI₂ IPAddr₂ intPort₂)) e

theorem oddPort_natCast {p : ℕ} : oddPort p = false ↔ Even p := by
  rw [← Bool.not_eq_true, oddPort_eq_true_iff, Int.not_odd_iff_even, Int.even_coe_nat]

section
variable {inetPton : InetPton} {iplong : ℕ → UInt32} {w : CStr}

theorem leaves_new_iff {URI : CStr} {IPAddr : Fin 4 → ℤ} {intPort : ℤ} {e : Endpoint} :
    Leaves (initURIInfo inetPton iplong w (.new URI IPAddr intPort)) e ↔
      CopiesFit [] (visits w) ∧ Endpoint.parse inetPton iplong w ⟨[], IPAddr, [], intPort⟩ = e := by
  have h := leaves_iff inetPton iplong w (URIInfo.new_clean URI IPAddr intPort) e
  rwa [URIInfo.new_endpoint, URIInfo.new_getstrPort] at h

variable {u : List UInt8} {q : Bytes4} {p : ℕ} {r : List UInt8}

/-- **A later colon loses the address.** -/
theorem Names.later_colon (hl : inetPton.Lawful) (h : Names w u q p r) (hp : Even p)
    (hr : colon ∈ r) (x : UInt32) (IPAddr : Fin 4 → ℤ) (intPort : ℤ) :
    (Endpoint.parse inetPton (fun _ => x) w ⟨[], IPAddr, [], intPort⟩).IPAddr = octets x := by
  have hv : visits w ≠ [] := by
    rw [h.visits_eq]; exact List.cons_ne_nil _ _
  -- the first port is even, so the loop goes on to the colons of the tail
  have hgo : portStop (portStep [] (dottedQuad q, portText (decimal p ++ r))) = false := by
    rw [portText, h.takeWhile_port, portStep, overlay_nil, portStop, atoi_decimal]
    exact oddPort_natCast.2 hp
  have hmem := h.firstColon.colon_mem inetPton (fun _ => x) ⟨[], IPAddr, [], intPort⟩
    (List.mem_append_right _ hr) hgo
  rw [Endpoint.parse_IPAddr inetPton hv, addrWord, hl.colon _ hmem]; rfl

theorem octets_ne : octets 0 ≠ octets 255 := by
  intro h
  have h0 : octets 0 0 = octets 255 0 := congrFun h 0
  revert h0; decide

variable {w₁ w₂ : CStr} {r₁ r₂ : List UInt8}

/-- Then the result is not determined by the URI. -/
theorem Names.notMem_of_leaves (hl : inetPton.Lawful) (h : Names w u q p r) (hp : Even p)
    {e : Endpoint} (hall : ∀ iplong, Leaves (initURIInfo inetPton iplong w (.new w 0 0)) e) :
    colon ∉ r := by
  intro hr
  have key : ∀ x, e.IPAddr = octets x := by
    intro x
    obtain ⟨-, he⟩ := leaves_new_iff.1 (hall fun _ => x)
    rw [← he]; exact h.later_colon hl hp hr x 0 0
  exact octets_ne ((key 0).symm.trans (key 255))

/-- **When the tail does not matter.** -/
theorem sameEndpoint_iff (hl : inetPton.Lawful) (h₁ : Names w₁ [] q p r₁)
    (h₂ : Names w₂ [] q p r₂) (hp : Even p) :
    SameEndpoint inetPton w₁ w₂ ↔ colon ∉ r₁ ∧ colon ∉ r₂ := by
  constructor
  · intro h
    -- both runs leave the endpoint that the other one leaves with all-zero memory
    obtain ⟨e, he₁, he₂⟩ := h w₁ 0 0 (fun _ => 0) w₂ 0 0 (fun _ => 0)
    have unique : ∀ {w iplong e e'}, Leaves (initURIInfo inetPton iplong w (.new w 0 0)) e →
        Leaves (initURIInfo inetPton iplong w (.new w 0 0)) e' → e = e' := by
      intro w iplong e e' he he'
      exact (leaves_new_iff.1 he).2.symm.trans (leaves_new_iff.1 he').2
    constructor
    · refine h₁.notMem_of_leaves hl hp (e := e) ?_
      intro iplong
      obtain ⟨e', he, he'⟩ := h w₁ 0 0 iplong w₂ 0 0 (fun _ => 0)
      rwa [unique he₂ he']
    · refine h₂.notMem_of_leaves hl hp (e := e) ?_
      intro iplong
      obtain ⟨e', he, he'⟩ := h w₁ 0 0 (fun _ => 0) w₂ 0 0 iplong
      rwa [unique he₁ he]
  · rintro ⟨hr₁, hr₂⟩
    intro URI₁ IPAddr₁ intPort₁ iplong₁ URI₂ IPAddr₂ intPort₂ iplong₂
    refine ⟨⟨dottedQuad q, intOctets q, decimal p, p⟩, ?_, ?_⟩
    · refine leaves_new_iff.2 ⟨h₁.copiesFit hr₁ [], ?_⟩
      rw [h₁.parse_eq hr₁, visit_new hl.quad]
    · refine leaves_new_iff.2 ⟨h₂.copiesFit hr₂ [], ?_⟩
      rw [h₂.parse_eq hr₂, visit_new hl.quad]

end

/-! ## A path with a colon -/

/-- A URI with a second colon. -/
def colonURI : CStr := ⟨ascii "rtsp://1.2.3.4:554/a:b", by decide⟩

theorem colonURI_names : Names colonURI [] ![1, 2, 3, 4] 554 (ascii "/a:b") :=
  ⟨rfl, fun _ _ => Nat.zero_le _, by omega, Or.inr rfl⟩

theorem sameEndpoint_colonURI_iff :
    SameEndpoint strictInetPton plainURI colonURI ↔ colon ∉ [] ∧ colon ∉ ascii "/a:b" :=
  sameEndpoint_iff strictInetPton_lawful plainURI_names colonURI_names ⟨277, rfl⟩

/-- The host text becomes `1.2.3.4:554/a`. -/
theorem not_sameEndpoint_colonURI :
    Names plainURI [] ![1, 2, 3, 4] 554 [] ∧ Names colonURI [] ![1, 2, 3, 4] 554 (ascii "/a:b") ∧
      Even 554 ∧ ¬ SameEndpoint strictInetPton plainURI colonURI := by
  refine ⟨plainURI_names, colonURI_names, ⟨277, rfl⟩, ?_⟩
  intro h
  obtain ⟨e, hplain, hcolon⟩ := h plainURI 0 0 (fun _ => 0) colonURI 0 0 (fun _ => 0)
  have h₁ : e.dotIPAddr = ascii "1.2.3.4" := by rw [← (leaves_new_iff.1 hplain).2]; rfl
  have h₂ : e.dotIPAddr = ascii "1.2.3.4:554/a" := by rw [← (leaves_new_iff.1 hcolon).2]; rfl
  exact absurd (h₁.symm.trans h₂) (by decide)

end RayionClient
