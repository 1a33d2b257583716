/-
  What the getters owe to indeterminate memory.

  The constructor sets the two texts and leaves the numbers as they are, and
  `inet_pton` leaves `iplong` as it is when it refuses the host text.  So the
  numbers come from the URI only if a colon is visited and the host text of the
  last visit is an address.  Behind the first colon the host text has a colon in
  it, so the last visit has to be the first one (`determined_iff`).
-/
import RayionClient.Tails

namespace RayionClient

open Base

/-- The endpoint that a fresh object gets from `w` does not depend on what its memory holds. -/
def Determined (inetPton : InetPton) (w : CStr) : Prop := SameEndpoint inetPton w w

/-- The first colon after the scheme has an address before it, and is the last one visited: no
    other one follows, or the port text behind it is odd. -/
def SingleAddress (inetPton : InetPton) (w : CStr) : Prop :=
  ∃ host r, FirstColon w host r ∧ (∃ q, inetPton host = some q) ∧
    (colon ∉ r ∨ Odd (atoi (portText r)))

section
variable {inetPton : InetPton} {w : CStr} {host r : List UInt8}

/-- If parsing gives the same whatever `iplong` holds, it ends with an address. -/
theorem exists_address_of_parse {e e' : Endpoint} (hv : visits w ≠ [])
    (h : ∀ x, e.parse inetPton (fun _ => x) w = e') : ∃ q, inetPton e'.dotIPAddr = some q := by
  refine Option.ne_none_iff_exists'.1 ?_
  intro hnone
  have key : ∀ x, e'.IPAddr = octets x := by
    intro x
    have hlast := Endpoint.parse_IPAddr inetPton hv x e
    rw [h x, addrWord, hnone] at hlast
    exact hlast
  exact octets_ne ((key 0).symm.trans (key 255))

/-- An address has no colon, so the first visit is the last one. -/
theorem FirstColon.last_of_address (hf : FirstColon w host r)
    (hcolon : ∀ t, colon ∈ t → inetPton t = none) {iplong : ℕ → UInt32} {e : Endpoint}
    {q : Bytes4} (hq : inetPton (e.parse inetPton iplong w).dotIPAddr = some q) :
    colon ∉ r ∨ portStop (portStep e.strPort (host, portText r)) = true := by
  by_contra hgo
  rw [not_or, not_not, Bool.not_eq_true] at hgo
  rw [hcolon _ (hf.colon_mem inetPton iplong e hgo.1 hgo.2)] at hq; cases hq

/-- **When the getters return what the URI says.** -/
theorem determined_iff (hcolon : ∀ t, colon ∈ t → inetPton t = none) :
    Determined inetPton w ↔ CopiesFit [] (visits w) ∧ SingleAddress inetPton w := by
  constructor
  · intro h
    obtain ⟨e, he, -⟩ := h w 0 0 (fun _ => 0) w 0 0 (fun _ => 0)
    obtain ⟨hfit, he⟩ := leaves_new_iff.1 he
    -- every run leaves this endpoint
    have key : ∀ intPort x,
        Endpoint.parse inetPton (fun _ => x) w ⟨[], 0, [], intPort⟩ = e := by
      intro intPort x
      obtain ⟨e', h₁, h₂⟩ := h w 0 0 (fun _ => 0) w 0 intPort (fun _ => x)
      rw [(leaves_new_iff.1 h₂).2, ← (leaves_new_iff.1 h₁).2, he]
    have hv : visits w ≠ [] := by
      intro hv
      have hid : ∀ e, Endpoint.parse inetPton (fun _ => 0) w e = e :=
        Endpoint.parse_of_visits_eq_nil inetPton _ hv
      have h01 : (⟨[], 0, [], 0⟩ : Endpoint) = ⟨[], 0, [], 1⟩ := by
        rw [← hid ⟨[], 0, [], 0⟩, key 0 0, ← key 1 0, hid]
      exact absurd (congrArg Endpoint.intPort h01) Int.zero_ne_one
    obtain ⟨q, hq⟩ := exists_address_of_parse hv (key 0)
    obtain ⟨host, r, hf⟩ := exists_firstColon hv
    have hlast : colon ∉ r ∨ Odd (atoi (portText r)) := by
      rw [← key 0 0] at hq
      exact (hf.last_of_address hcolon hq).imp_right FirstColon.portStop_new.1
    have hhost : e.dotIPAddr = host := by rw [← he, hf.parse_new hlast]
    exact ⟨hfit, host, r, hf, ⟨q, hhost ▸ hq⟩, hlast⟩
  · rintro ⟨hfit, host, r, hf, ⟨q, hq⟩, hlast⟩
    have key : ∀ iplong IPAddr intPort,
        Endpoint.parse inetPton iplong w ⟨[], IPAddr, [], intPort⟩ =
          ⟨host, intOctets q, portText r, atoi (portText r)⟩ := by
      intro iplong IPAddr intPort
      rw [hf.parse_new hlast, octets_addrWord hq]
    intro URI₁ IPAddr₁ intPort₁ iplong₁ URI₂ IPAddr₂ intPort₂ iplong₂
    exact ⟨_, leaves_new_iff.2 ⟨hfit, key _ _ _⟩, leaves_new_iff.2 ⟨hfit, key _ _ _⟩⟩

end

theorem determined_plainURI_iff : Determined strictInetPton plainURI ↔
    CopiesFit [] (visits plainURI) ∧ SingleAddress strictInetPton plainURI :=
  determined_iff strictInetPton_lawful.colon

/-! ## A URI without a port -/

/-- A URI without a port. -/
def noPortURI : CStr := ⟨ascii "rtsp://1.2.3.4/live", by decide⟩

/-- No colon follows the scheme, so no member is set. -/
theorem not_determined_noPortURI :
    CopiesFit [] (visits noPortURI) ∧ ¬ Determined strictInetPton noPortURI := by
  have hv : visits noPortURI = [] := rfl
  refine ⟨by rw [hv]; exact copiesFit_of_forall (by simp), ?_⟩
  intro h
  obtain ⟨e, h₁, h₂⟩ := h noPortURI 0 0 (fun _ => 0) noPortURI 0 1 (fun _ => 0)
  have hint : e.intPort = 0 := by
    rw [← (leaves_new_iff.1 h₁).2, Endpoint.parse_of_visits_eq_nil _ _ hv]
  have hint' : e.intPort = 1 := by
    rw [← (leaves_new_iff.1 h₂).2, Endpoint.parse_of_visits_eq_nil _ _ hv]
  exact absurd (hint.symm.trans hint') Int.zero_ne_one

end RayionClient
