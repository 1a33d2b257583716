/-
  The port of the RTSP connection.

  The port text is converted twice: `ParseURI` keeps an `int`, and
  `connectServer` narrows the same number to 16 bits.  They agree iff the number
  is in the range of a port (`mainSocket_port_iff`), which nobody checks.
-/
import RayionClient.Client

namespace RayionClient

open Base

/-- Five digits with a value above the largest port. -/
def TooLarge (port : List UInt8) : Prop :=
  port.length = 5 ∧ (∀ c ∈ port, isdigit c) ∧ 65535 < digitsVal 0 port

/-- The port texts of at most five characters that are ports. -/
theorem port_range_iff {port : List UInt8} (hlen : port.length ≤ 5) :
    (0 ≤ atoi port ∧ atoi port < 65536) ↔ ¬ Negative port ∧ ¬ TooLarge port := by
  rw [← atoi_neg_iff, not_lt]
  refine and_congr_right fun _ => ?_
  rw [← not_le, not_iff_not]
  constructor
  · intro hle
    obtain ⟨h5, hdigits⟩ := digits_of_le_atoi (n := 4) hlen (by omega)
    rw [atoi_of_digits hdigits] at hle
    exact ⟨h5, hdigits, by omega⟩
  · rintro ⟨-, hdigits, hval⟩
    rw [atoi_of_digits hdigits]; omega

/-- What narrowing to 16 bits keeps. -/
theorem uint16_ofInt_eq_iff (x : ℤ) :
    ((UInt16.ofInt x).toNat : ℤ) = x ↔ 0 ≤ x ∧ x < 65536 := by
  have hmod : ((UInt16.ofInt x).toNat : ℤ) = x % 65536 := by
    rw [UInt16.ofInt, UInt16.toNat_ofNat']; omega
  rw [hmod]; omega

/-- The port of the connection, in host byte order. -/
theorem ntohs_sin_port (inetPton : InetPton) (sk : Socket) (info : URIInfo) (address : UInt32) :
    ntohs ((mainSocket sk info).serverAddr inetPton address).sin_port =
      UInt16.ofInt (atoi info.getstrPort) := ntohs_htons _

section
variable {w : CStr} {host r : List UInt8}

/-- **When the connection gets the port that the parser reports.** -/
theorem mainSocket_port_iff (h : FirstColon w host r) (hr : colon ∉ r) (hhost : host.length ≤ 17)
    (hport : (portText r).length ≤ 5) (inetPton : InetPton) (iplong : ℕ → UInt32) (URI : CStr)
    (IPAddr : Fin 4 → ℤ) (intPort : ℤ) (sk : Socket) (address : UInt32) :
    ∃ log flag info, initURIInfo inetPton iplong w (.new URI IPAddr intPort) =
        ⟨log, some (flag, info)⟩ ∧
      ((ntohs ((mainSocket sk info).serverAddr inetPton address).sin_port).toNat =
          info.getintPort ↔ ¬ Negative (portText r) ∧ ¬ TooLarge (portText r)) := by
  obtain ⟨log, info, hrun, -, -, he⟩ := initURIInfo_fits inetPton iplong w
    (URIInfo.new_clean URI IPAddr intPort) (h.copiesFit hr hhost hport _)
  rw [URIInfo.new_endpoint, h.parse_new (Or.inl hr)] at he
  have hstr : info.getstrPort = portText r := congrArg Endpoint.strPort he
  have hint : info.getintPort = atoi (portText r) := congrArg Endpoint.intPort he
  refine ⟨log, -1, info, hrun, ?_⟩
  rw [ntohs_sin_port, hstr, hint, uint16_ofInt_eq_iff, port_range_iff hport]

end

theorem mainSocket_port_plainURI : ∃ log flag info,
    initURIInfo strictInetPton (fun _ => 0) plainURI (.new plainURI 0 0) =
        ⟨log, some (flag, info)⟩ ∧
      ((ntohs ((mainSocket ⟨0, [], []⟩ info).serverAddr strictInetPton 0).sin_port).toNat =
          info.getintPort ↔ ¬ Negative (portText (decimal 554 ++ [])) ∧
            ¬ TooLarge (portText (decimal 554 ++ []))) :=
  mainSocket_port_iff plainURI_names.firstColon (by decide) plainURI_names.fits.1
    plainURI_names.fits.2 _ _ _ _ _ _ _

/-! ## A port that is not one -/

/-- A port of five digits that is no port. -/
def bigPortURI : CStr := ⟨ascii "rtsp://1.2.3.4:70000", by decide⟩

/-- The connection goes to port 4464. -/
theorem bigPortURI_truncated :
    FirstColon bigPortURI (dottedQuad ![1, 2, 3, 4]) (ascii "70000") ∧
      ∃ log flag info, initURIInfo strictInetPton (fun _ => 0) bigPortURI (.new bigPortURI 0 0) =
          ⟨log, some (flag, info)⟩ ∧ .cout .nonEvenPort ∉ log ∧ info.getintPort = 70000 ∧
        (ntohs ((mainSocket ⟨0, [], []⟩ info).serverAddr strictInetPton 0).sin_port).toNat =
          4464 := by
  refine ⟨⟨⟨[], rfl, List.prefix_append _ _, fun _ _ => Nat.zero_le _⟩, by decide⟩, ?_⟩
  obtain ⟨log, info, hrun, hlog, -, he⟩ := initURIInfo_fits strictInetPton (fun _ => 0) bigPortURI
    (URIInfo.new_clean bigPortURI 0 0) (by rw [URIInfo.new_getstrPort]; decide)
  rw [URIInfo.new_endpoint] at he
  have hstr : info.getstrPort = ascii "70000" := congrArg Endpoint.strPort he
  refine ⟨log, -1, info, hrun, ?_, congrArg Endpoint.intPort he, ?_⟩
  · rw [← mem_couts, hlog.couts, URIInfo.new_getstrPort]; decide
  · rw [ntohs_sin_port, hstr]; decide

end RayionClient
