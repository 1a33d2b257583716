/-
  How a call on a fresh object ends.

  It stays inside the buffers iff the copies fit (`initURIInfo_inBounds_iff`),
  and if it returns it returns -1, whatever the URI is; so the result tells an
  acceptable URI from others only where there is none
  (`initURIInfo_exactTest_iff`).
-/
import RayionClient.RoundTrip

namespace RayionClient

open Base

section
variable {inetPton : InetPton} {iplong : ℕ → UInt32} {w : CStr}

/-- The two ways a call on clean buffers ends. -/
theorem initURIInfo_outcome (inetPton : InetPton) (iplong : ℕ → UInt32) (w : CStr)
    {info : URIInfo} (hc : info.Clean) :
    (CopiesFit info.getstrPort (visits w) ∧
      (∃ info', (initURIInfo inetPton iplong w info).out = some (-1, info')) ∧
      ∀ e ∈ (initURIInfo inetPton iplong w info).log, e.InBounds ∧ e.Fits) ∨
    (¬ CopiesFit info.getstrPort (visits w) ∧
      (initURIInfo inetPton iplong w info).out = none ∧
      Overflows (initURIInfo inetPton iplong w info).log) := by
  by_cases hf : CopiesFit info.getstrPort (visits w)
  · obtain ⟨log, info', hrun, hlog, -, -⟩ := initURIInfo_fits inetPton iplong w hc hf
    exact Or.inl ⟨hf, ⟨info', by rw [hrun]⟩, by rw [hrun]; exact hlog.ok⟩
  · exact Or.inr ⟨hf, initURIInfo_overflow inetPton iplong w hc hf⟩

/-! ## Staying inside the buffers -/

/-- **When every access is in bounds.** -/
theorem initURIInfo_inBounds_iff (URI : CStr) (IPAddr : Fin 4 → ℤ) (intPort : ℤ) :
    (∀ e ∈ (initURIInfo inetPton iplong w (.new URI IPAddr intPort)).log, e.InBounds) ↔
      CopiesFit [] (visits w) := by
  rw [← URIInfo.new_getstrPort URI IPAddr intPort]
  rcases initURIInfo_outcome inetPton iplong w (URIInfo.new_clean URI IPAddr intPort) with
    ⟨hf, -, hok⟩ | ⟨hf, -, ⟨e, he, hout⟩, -⟩
  · refine iff_of_true ?_ hf
    intro e he
    exact (hok e he).1
  · refine iff_of_false ?_ hf
    intro h
    exact hout (h e he)

/-- A host name of 19 characters. -/
def longHostURI : CStr := ⟨ascii "rtsp://streams.example.com:554/live", by decide⟩

theorem longHostURI_out_of_bounds :
    ¬ ∀ e ∈ (initURIInfo strictInetPton (fun _ => 0) longHostURI (.new longHostURI 0 0)).log,
      e.InBounds := by
  intro h
  exact Nat.lt_irrefl 18 (h (.dotIPAddr 18) (by decide))

/-! ## The result -/

/-- The URIs that `initURIInfo` is to accept. -/
def Acceptable (w : CStr) : Prop := ∃ u q p r, Names w u q p r ∧ Even p

/-- A fresh object answers 0 if the URI is acceptable and -1 if not. -/
def ExactTest (inetPton : InetPton) (w : CStr) : Prop :=
  ∀ URI IPAddr intPort iplong, ∃ flag info,
    (initURIInfo inetPton iplong w (.new URI IPAddr intPort)).out = some (flag, info) ∧
      (flag = 0 ↔ Acceptable w) ∧ (¬ Acceptable w → flag = -1)

/-- **When the result is right.** -/
theorem initURIInfo_exactTest_iff :
    ExactTest inetPton w ↔ ¬ Acceptable w ∧ CopiesFit [] (visits w) := by
  constructor
  · intro h
    obtain ⟨flag, info, hout, hzero, -⟩ := h w 0 0 fun _ => 0
    rcases initURIInfo_outcome inetPton (fun _ => 0) w (URIInfo.new_clean w 0 0) with
      ⟨hf, ⟨info', hret⟩, -⟩ | ⟨-, hnone, -⟩
    · rw [hret] at hout
      cases hout
      refine ⟨?_, by rwa [URIInfo.new_getstrPort] at hf⟩
      intro ha
      have h01 : (-1 : ℤ) = 0 := hzero.2 ha
      omega
    · rw [hnone] at hout; cases hout
  · rintro ⟨ha, hf⟩
    intro URI IPAddr intPort iplong
    obtain ⟨log, info, hrun, -⟩ := initURIInfo_fits inetPton iplong w
      (URIInfo.new_clean URI IPAddr intPort) (by rwa [URIInfo.new_getstrPort])
    exact ⟨-1, info, by rw [hrun], iff_of_false (by omega) ha, fun _ => rfl⟩

theorem liveURI_refused : Acceptable liveURI ∧ ¬ ExactTest strictInetPton liveURI := by
  have hacc : Acceptable liveURI := ⟨_, _, _, _, liveURI_names, 277, rfl⟩
  refine ⟨hacc, ?_⟩
  intro h
  obtain ⟨flag, info, hout, hzero, -⟩ := h liveURI 0 0 fun _ => 0
  have hrun : (initURIInfo strictInetPton (fun _ => 0) liveURI
      (.new liveURI 0 0)).out.map Prod.fst = some (-1) := by decide
  have hflag : flag = -1 := by
    rw [hout] at hrun; exact Option.some.inj hrun
  have hflag' : flag = 0 := hzero.2 hacc
  omega

end

end RayionClient
