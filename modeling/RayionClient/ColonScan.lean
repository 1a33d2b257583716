/-
  URIs with several colons.

  `ParseURI` goes through the colons of the text behind the scheme and copies to
  the same two buffers at each.  The host texts are prefixes of one another, so
  the last one covers the others; the port texts are not, so what is left is
  mixed from all of them.  The scan ends at the first colon where the mixed text
  is odd, or at the last colon (`initURIInfo_colonScan`).
-/
import RayionClient.Refinement

namespace RayionClient

open Base

/-! ## The colons of a text -/

/-- The positions `c₁ < c₂ < ...` of the colons. -/
def colonPositions (t : List UInt8) : List ℕ := t.idxsOf colon

/-- The text behind the colon at `c`, up to the next `/`. -/
def segment (t : List UInt8) (c : ℕ) : List UInt8 := portText (t.drop (c + 1))

/-- The texts behind the first `m` colons, laid over each other. -/
def portAfter (t : List UInt8) (m : ℕ) : List UInt8 :=
  overlays (((colonPositions t).take m).map (segment t))

/-- The first `m` that makes the port odd, or the number of all colons. -/
def lastColon (t : List UInt8) : ℕ :=
  ((List.range' 1 (colonPositions t).length).find? fun m => Odd (atoi (portAfter t m))).getD
    (colonPositions t).length

/-- The positions of the colons that the loop visits. -/
def visitedColons (t : List UInt8) : List ℕ := (colonPositions t).take (lastColon t)

section
variable {t : List UInt8}

theorem colonPositions_pos (ht : colon ∈ t) : 0 < (colonPositions t).length := by
  rw [colonPositions, List.length_idxsOf]
  exact List.count_pos_iff.2 ht

theorem length_take_of_mem {c : ℕ} (hc : c ∈ colonPositions t) : (t.take c).length = c := by
  have := List.lt_add_of_mem_idxsOf c hc
  rw [List.length_take]; omega

theorem pairwise_colonPositions (t : List UInt8) : (colonPositions t).Pairwise (· < ·) :=
  List.pairwise_idxsOf

/-- What `lastColon` is. -/
theorem lastColon_spec (ht : colon ∈ t) : 0 < lastColon t ∧
    lastColon t ≤ (colonPositions t).length ∧
    (∀ m, 0 < m → m < lastColon t → ¬ Odd (atoi (portAfter t m))) ∧
    (Odd (atoi (portAfter t (lastColon t))) ∨ lastColon t = (colonPositions t).length) := by
  have hpos := colonPositions_pos ht
  unfold lastColon
  cases hfind : (List.range' 1 (colonPositions t).length).find?
      fun m => decide (Odd (atoi (portAfter t m))) with
  | some m =>
    obtain ⟨hodd, hmem, hbefore⟩ := List.find?_range'_eq_some.1 hfind
    rw [List.mem_range'_1] at hmem
    rw [Option.getD_some]
    refine ⟨by omega, by omega, ?_, Or.inl (of_decide_eq_true hodd)⟩
    intro k hk hlt
    simpa using hbefore k hk hlt
  | none =>
    rw [Option.getD_none]
    refine ⟨hpos, le_rfl, ?_, Or.inr rfl⟩
    intro k hk hlt
    simpa using List.find?_range'_eq_none.1 hfind k hk (by omega)

/-- Some colon is visited; the last one lies behind the others. -/
theorem exists_visitedColons (ht : colon ∈ t) : ∃ cs c, visitedColons t = cs ++ [c] ∧
    ∀ b ∈ cs, b < c := by
  obtain ⟨hpos, hle, -, -⟩ := lastColon_spec ht
  have hne : visitedColons t ≠ [] := by
    have hlen : (visitedColons t).length = lastColon t := by
      rw [visitedColons, List.length_take, Nat.min_eq_left hle]
    intro hnil
    rw [hnil, List.length_nil] at hlen; omega
  obtain ⟨cs, c, hcs⟩ := (List.eq_nil_or_concat _).resolve_left hne
  rw [List.concat_eq_append] at hcs
  refine ⟨cs, c, hcs, ?_⟩
  have hpair : (visitedColons t).Pairwise (· < ·) :=
    (pairwise_colonPositions t).sublist (List.take_sublist _ _)
  rw [hcs, List.pairwise_append] at hpair
  intro b hb
  exact hpair.2.2 b hb c (List.mem_singleton_self c)

end

/-! ## The visits -/

section
variable {w : CStr} {u t : List UInt8}

/-- The visit of the colon at `c`. -/
def visitAt (t : List UInt8) (c : ℕ) : Visit := (t.take c, segment t c)

theorem visits_eq_map (h : FirstAt w.bytes rtspHead u (rtspHead ++ t)) :
    visits w = (colonPositions t).map (visitAt t) := by
  rw [visits_of_firstAt h, cuts_eq_map]; rfl

theorem foldl_portStep (t : List UInt8) (m : ℕ) :
    (((colonPositions t).map (visitAt t)).take m).foldl portStep [] = portAfter t m := by
  rw [← List.map_take, List.foldl_map, portAfter, overlays, List.foldl_map]; rfl

/-- **Which colons are visited.** -/
theorem portVisits_eq_map (h : FirstAt w.bytes rtspHead u (rtspHead ++ t)) (ht : colon ∈ t) :
    portVisits [] (visits w) = (visitedColons t).map (visitAt t) := by
  obtain ⟨hpos, hle, hbefore, hend⟩ := lastColon_spec ht
  obtain ⟨n, hn⟩ : ∃ n, lastColon t = n + 1 := ⟨lastColon t - 1, by omega⟩
  rw [hn] at hle hbefore hend
  rw [portVisits, visits_eq_map h, visitedColons, hn, List.map_take]
  refine reached_eq_take portStep portStop (by rw [List.length_map]; omega) ?_ ?_
  · intro m hm
    rw [foldl_portStep, portStop, Bool.eq_false_iff, ne_eq, oddPort_eq_true_iff]
    exact hbefore (m + 1) (by omega) (by omega)
  · rw [foldl_portStep, portStop, oddPort_eq_true_iff, List.length_map]
    exact hend

/-- Each text is laid over what earlier visits left. -/
theorem foldl_visit (inetPton : InetPton) (iplong : ℕ → UInt32) (t : List UInt8) (cs : List ℕ)
    (IPAddr : Fin 4 → ℤ) (intPort : ℤ) {e : Endpoint}
    (he : e = (cs.map (visitAt t)).foldl (Endpoint.visit inetPton iplong)
      ⟨[], IPAddr, [], intPort⟩) :
    e.dotIPAddr = overlays (cs.map fun c => t.take c) ∧
      e.strPort = overlays (cs.map (segment t)) := by
  subst he
  rw [overlays, overlays, List.foldl_map, List.foldl_map, List.foldl_map]
  exact ⟨(List.foldl_hom Endpoint.dotIPAddr fun _ _ => rfl).symm,
    (List.foldl_hom Endpoint.strPort fun _ _ => rfl).symm⟩

/-- **What a scan over several colons leaves.** -/
theorem initURIInfo_colonScan (h : FirstAt w.bytes rtspHead u (rtspHead ++ t)) (ht : colon ∈ t)
    (hfit : ∀ c ∈ visitedColons t, c ≤ 17 ∧ (segment t c).length ≤ 5) (inetPton : InetPton)
    (iplong : ℕ → UInt32) (URI : CStr) (IPAddr : Fin 4 → ℤ) (intPort : ℤ) :
    ∃ log flag info c, initURIInfo inetPton iplong w (.new URI IPAddr intPort) =
        ⟨log, some (flag, info)⟩ ∧
      colons log = (visitedColons t).map (7 + ·) ∧
      (visitedColons t).getLast? = some c ∧ info.getDotIPAddr = t.take c ∧
      info.getstrPort = portAfter t (lastColon t) ∧
      info.getintPort = atoi (portAfter t (lastColon t)) ∧
      (portAfter t (lastColon t)).length =
        ((visitedColons t).map fun c => (segment t c).length).foldl max 0 ∧
      ∀ j, (portAfter t (lastColon t))[j]? =
        (((visitedColons t).map (segment t)).findRev? fun s => j < s.length).bind (·[j]?) := by
  have hvis := portVisits_eq_map h ht
  have hcopies : CopiesFit [] (visits w) := by
    intro v hv
    rw [hvis] at hv
    obtain ⟨c, hc, rfl⟩ := List.mem_map.1 hv
    exact ⟨(List.length_take_le c t).trans (hfit c hc).1, (hfit c hc).2⟩
  obtain ⟨log, info, hrun, hlog, -, he⟩ := initURIInfo_fits inetPton iplong w
    (URIInfo.new_clean URI IPAddr intPort) (by rwa [URIInfo.new_getstrPort])
  rw [URIInfo.new_getstrPort, hvis] at hlog
  have hfold : info.endpoint = ((visitedColons t).map (visitAt t)).foldl
      (Endpoint.visit inetPton iplong) ⟨[], IPAddr, [], intPort⟩ := by
    rw [he, URIInfo.new_endpoint, Endpoint.parse, Endpoint.visitAll, scanUntil_eq_foldl,
      (Endpoint.visitAll_port _ _).2.1, hvis]
  obtain ⟨hdot, hstr⟩ := foldl_visit inetPton iplong t _ IPAddr intPort hfold
  obtain ⟨cs, c, hcs, hlast⟩ := exists_visitedColons ht
  have hmem : ∀ c ∈ visitedColons t, (t.take c).length = c :=
    fun c hc => length_take_of_mem (List.mem_of_mem_take hc)
  have hport : info.getstrPort = portAfter t (lastColon t) := hstr
  refine ⟨log, -1, info, c, hrun, ?_, by rw [hcs, List.getLast?_concat], ?_, hport, ?_, ?_,
    getElem?_overlays _⟩
  · rw [hlog.colons, List.map_map]
    refine List.map_congr_left ?_
    intro c hc
    exact congrArg (7 + ·) (hmem c hc)
  · -- the last host text covers the earlier ones
    rw [hcs, List.map_append, List.map_singleton, overlays_concat_of_length_le] at hdot
    · exact hdot
    · intro text htext
      obtain ⟨b, hb, rfl⟩ := List.mem_map.1 htext
      rw [hmem b (by simp [hcs, hb]), hmem c (by simp [hcs])]
      exact (hlast b hb).le
  · have hint := Endpoint.parse_intPort inetPton iplong (visits_ne_nil_of_mem h ht)
      (URIInfo.new URI IPAddr intPort).endpoint
    rw [← he] at hint
    rw [← hport]; exact hint
  · rw [portAfter, length_overlays, List.map_map]; rfl

end

/-! ## Two colons -/

/-- The port texts are `8554` and `12`. -/
def mixedURI : CStr := ⟨ascii "rtsp://1.2.3.4:8554/a:12", by decide⟩

theorem mixedURI_colonScan : ∃ log flag info,
    initURIInfo strictInetPton (fun _ => 0) mixedURI (.new mixedURI 0 0) =
        ⟨log, some (flag, info)⟩ ∧
      colons log = [14, 21] ∧ info.getDotIPAddr = ascii "1.2.3.4:8554/a" ∧
      info.getstrPort = ascii "1254" ∧ info.getintPort = 1254 := by
  have hfirst : FirstAt mixedURI.bytes rtspHead [] (rtspHead ++ ascii "1.2.3.4:8554/a:12") :=
    ⟨rfl, List.prefix_append _ _, fun _ _ => Nat.zero_le _⟩
  have hvis : visitedColons (ascii "1.2.3.4:8554/a:12") = [7, 14] := rfl
  have hport : portAfter (ascii "1.2.3.4:8554/a:12") (lastColon (ascii "1.2.3.4:8554/a:12")) =
      ascii "1254" := rfl
  obtain ⟨log, flag, info, c, hrun, hcolons, hc, hdot, hstr, hint, -, -⟩ :=
    initURIInfo_colonScan hfirst (by decide) (by rw [hvis]; decide) strictInetPton (fun _ => 0)
      mixedURI 0 0
  rw [hvis] at hc hcolons
  cases hc
  rw [hport] at hstr hint
  exact ⟨log, flag, info, hrun, hcolons, hdot, hstr, hint⟩

end RayionClient
