/-
  `ParseURI` computes `Endpoint.parse`.

  * `initURIInfo_fits`: from clean buffers, if the copies fit, the call returns
    -1, leaves clean buffers, and the getters return the parsed endpoint.  Its
    log shows the visited colons, no write outside the buffers, and the
    odd-port message iff it left through that exit.
  * `initURIInfo_overflow`: if some copy does not fit, the call runs into
    undefined behaviour, and its log shows it.
-/
import RayionClient.Endpoint

namespace RayionClient

open Base

namespace URIInfo

/-- Both buffers hold a text and zeros after it. -/
structure Clean (info : URIInfo) : Prop where
  dotIPAddr : info.dotIPAddr.Clean
  strPort : info.strPort.Clean

theorem new_clean (URI : CStr) (IPAddr : Fin 4 → ℤ) (intPort : ℤ) :
    (new URI IPAddr intPort).Clean :=
  ⟨Buf.zero_clean (by decide), Buf.zero_clean (by decide)⟩

theorem new_getstrPort (URI : CStr) (IPAddr : Fin 4 → ℤ) (intPort : ℤ) :
    (new URI IPAddr intPort).getstrPort = [] := Buf.zero_text

theorem new_endpoint (URI : CStr) (IPAddr : Fin 4 → ℤ) (intPort : ℤ) :
    (new URI IPAddr intPort).endpoint = ⟨[], IPAddr, [], intPort⟩ := by
  simp [endpoint, new, getDotIPAddr, getIPAddr, getstrPort, getintPort, Buf.zero_text]

end URIInfo

/-- The log of a run in which the visits `vs` were made and all copies fit. -/
structure VisitLog (vs : List Visit) (msgs : List Msg) (log : List Ev) : Prop where
  colons : colons log = vs.map fun v => 7 + v.1.length
  couts : couts log = msgs
  ok : ∀ e ∈ log, e.InBounds ∧ e.Fits

theorem VisitLog.append {vs vs' : List Visit} {msgs msgs' : List Msg} {log log' : List Ev}
    (h : VisitLog vs msgs log) (h' : VisitLog vs' msgs' log') :
    VisitLog (vs ++ vs') (msgs ++ msgs') (log ++ log') where
  colons := by rw [colons_append, h.colons, h'.colons, List.map_append]
  couts := by rw [couts_append, h.couts, h'.couts]
  ok e he := (List.mem_append.1 he).elim (h.ok e) (h'.ok e)

/-- Some event leaves a buffer, and some copy does not fit. -/
def Overflows (log : List Ev) : Prop := (∃ e ∈ log, ¬ e.InBounds) ∧ ∃ e ∈ log, ¬ e.Fits

theorem Overflows.mono {log log' : List Ev} (h : Overflows log) (hs : log ⊆ log') :
    Overflows log' :=
  ⟨h.1.imp fun _ he => ⟨hs he.1, he.2⟩, h.2.imp fun _ he => ⟨hs he.1, he.2⟩⟩

/-! ## The copy loops -/

theorem charAt_append_cons (a : List UInt8) (c : UInt8) (r : List UInt8) :
    charAt (a ++ c :: r) a.length = c := by
  simp [charAt, List.getD_eq_getElem?_getD]

theorem copyHost_eq (a r : List UInt8) : ∀ (l : List UInt8) (j : ℕ) (b : Buf 18),
    a.length = 7 + j → copyHost (a ++ (l ++ r)) l.length j b = Buf.copy .dotIPAddr l j b
  | [], _, _, _ => rfl
  | c :: l, j, b, h => by
    have hc : charAt (a ++ c :: (l ++ r)) (7 + j) = c := by
      rw [← h]; exact charAt_append_cons a c (l ++ r)
    have ih := copyHost_eq (a ++ [c]) r l (j + 1)
    simp only [List.append_assoc, List.cons_append, List.nil_append] at ih
    simp only [List.length_cons, List.cons_append, copyHost, Buf.copy, hc]
    congr 1; funext b'
    exact ih b' (by simp only [List.length_append, List.length_singleton, h]; omega)

theorem copyPort_eq (i : ℕ) : ∀ (r a : List UInt8) (k : ℕ) (b : Buf 6),
    a.length = i + 1 + k → copyPort (a ++ r) i r.length a.length b =
      Buf.copy .strPort (r.takeWhile (· ≠ slash)) k b
  | [], _, _, _, _ => rfl
  | c :: r, a, k, b, h => by
    rw [List.length_cons, copyPort, charAt_append_cons]
    by_cases hc : c = slash
    · rw [if_pos hc, List.takeWhile_cons_of_neg (by simp [hc])]; rfl
    · rw [if_neg hc, List.takeWhile_cons_of_pos (by simp [hc]), Buf.copy,
        show a.length - i - 1 = k by omega]
      have ih := copyPort_eq i r (a ++ [c]) (k + 1)
      simp only [List.append_assoc, List.cons_append, List.nil_append, List.length_append,
        List.length_cons, List.length_nil] at ih
      congr 1; funext b'
      exact ih b' (by omega)

/-! ## One visit -/

section
variable (inetPton : InetPton) {info : URIInfo} {pre r : List UInt8}

/-- The URI from its scheme on, split at a colon. -/
abbrev uriAt (pre r : List UInt8) : List UInt8 := rtspHead ++ (pre ++ colon :: r)

/-- The loop body, with both copies as copies of texts. -/
theorem colonBody_eq (iplong : UInt32) :
    colonBody inetPton (uriAt pre r) (uriAt pre r).length (7 + pre.length) iplong info = (do
      Exec.tell (.colon (7 + pre.length))
      let dotIPAddr ← Buf.copy .dotIPAddr pre 0 info.dotIPAddr
      let iplong ← callInetPton inetPton dotIPAddr info.strPort iplong
      let strPort ← Buf.copy .strPort (r.takeWhile (· ≠ slash)) 0 info.strPort
      let intPort ← callAtoi dotIPAddr strPort
      return { info with
        dotIPAddr := dotIPAddr
        IPAddr := octets iplong
        strPort := strPort
        intPort := intPort }) := by
  have hlen : (uriAt pre r).length - (7 + pre.length + 1) = r.length := by
    simp [rtspHead, ascii]; omega
  have hhost := copyHost_eq rtspHead (colon :: r) pre 0 info.dotIPAddr rfl
  have hport : ∀ b, copyPort (uriAt pre r) (7 + pre.length) r.length (7 + pre.length + 1) b =
      Buf.copy .strPort (r.takeWhile (· ≠ slash)) 0 b := by
    intro b
    have ha : (rtspHead ++ (pre ++ [colon])).length = 7 + pre.length + 1 := by
      simp [rtspHead, ascii]; omega
    have := copyPort_eq (7 + pre.length) r (rtspHead ++ (pre ++ [colon])) 0 b (by rw [ha])
    rw [ha] at this
    simpa [uriAt] using this
  simp only [colonBody, hlen, hport, Nat.add_sub_cancel_left, hhost]
  rfl

theorem visitLog_range (mk : ℕ → Ev) (k : ℕ) (hc : ∀ j, colons [mk j] = [])
    (ho : ∀ j, couts [mk j] = []) (h : ∀ j < k, (mk j).InBounds ∧ (mk j).Fits) :
    VisitLog [] [] ((List.range k).map mk) where
  colons := by
    induction k with
    | zero => rfl
    | succ k ih =>
      rw [List.range_succ, List.map_append, colons_append, ih fun j hj => h j (by omega)]
      exact hc k
  couts := by
    induction k with
    | zero => rfl
    | succ k ih =>
      rw [List.range_succ, List.map_append, couts_append, ih fun j hj => h j (by omega)]
      exact ho k
  ok e he := by
    obtain ⟨j, hj, rfl⟩ := List.mem_map.1 he
    exact h j (List.mem_range.1 hj)

/-- A visit whose copies fit. -/
theorem colonBody_fits (iplong : UInt32) (hc : info.Clean) (h0 : 0 ∉ pre) (hr : 0 ∉ r)
    (hhost : pre.length ≤ 17) (hport : (r.takeWhile (· ≠ slash)).length ≤ 5) :
    ∃ log info', colonBody inetPton (uriAt pre r) (uriAt pre r).length (7 + pre.length) iplong
        info = ⟨log, some info'⟩ ∧
      VisitLog [(pre, r.takeWhile (· ≠ slash))] [] log ∧ info'.Clean ∧
      info'.endpoint =
        info.endpoint.visit inetPton (fun _ => iplong) (pre, r.takeWhile (· ≠ slash)) := by
  obtain ⟨d, hd, hdc, hdt⟩ := Buf.copy_clean Ev.dotIPAddr hc.dotIPAddr h0 (by omega)
  obtain ⟨p, hp, hpc, hpt⟩ := Buf.copy_clean Ev.strPort hc.strPort
    (fun h => hr (List.takeWhile_subset _ h)) (l := r.takeWhile (· ≠ slash)) (by omega)
  have hdT := hdc.terminated
  have hpT := hpc.terminated
  have hsT := hc.strPort.terminated
  rw [colonBody_eq inetPton, hd, hp]
  simp only [callInetPton, callAtoi, Exec.tellGet, hdT, hpT, if_true, Exec.tell_bind,
    Exec.mk_some_bind]
  refine ⟨_, _, rfl, ?_, ⟨hdc, hpc⟩, ?_⟩
  · have h1 : VisitLog [(pre, r.takeWhile (· ≠ slash))] [] [.colon (7 + pre.length)] :=
      ⟨rfl, rfl, by simp [Ev.InBounds, Ev.Fits]⟩
    have h2 : VisitLog [] [] ((List.range pre.length).map Ev.dotIPAddr) :=
      visitLog_range _ _ (fun _ => rfl) (fun _ => rfl) fun j hj =>
        ⟨show j < 18 by omega, show j < 17 by omega⟩
    have h3 : VisitLog [] [] [.inetPton d info.strPort] :=
      ⟨rfl, rfl, by simp [Ev.InBounds, Ev.Fits, hdT, hsT]⟩
    have h4 : VisitLog [] [] ((List.range (r.takeWhile (· ≠ slash)).length).map Ev.strPort) :=
      visitLog_range _ _ (fun _ => rfl) (fun _ => rfl) fun j hj =>
        ⟨show j < 6 by omega, show j < 5 by omega⟩
    have h5 : VisitLog [] [] [.atoi d p] := ⟨rfl, rfl, by simp [Ev.InBounds, Ev.Fits, hdT, hpT]⟩
    simpa using h1.append (h2.append (h3.append (h4.append h5)))
  · simp [URIInfo.endpoint, URIInfo.getDotIPAddr, URIInfo.getIPAddr, URIInfo.getstrPort,
      URIInfo.getintPort, Endpoint.visit, portStep, addrWord, hdt, hpt]

/-- A visit in which a copy does not fit. -/
theorem colonBody_overflow (iplong : UInt32) (hc : info.Clean) (h0 : 0 ∉ pre) (hr : 0 ∉ r)
    (h : ¬ (pre.length ≤ 17 ∧ (r.takeWhile (· ≠ slash)).length ≤ 5)) :
    (colonBody inetPton (uriAt pre r) (uriAt pre r).length (7 + pre.length) iplong info).out =
        none ∧
      Overflows (colonBody inetPton (uriAt pre r) (uriAt pre r).length (7 + pre.length) iplong
        info).log := by
  rw [colonBody_eq inetPton]
  rcases Nat.lt_trichotomy pre.length 18 with hlt | heq | hgt
  · -- the host fits, so the port does not
    have h6 : 6 ≤ (r.takeWhile (· ≠ slash)).length := by omega
    obtain ⟨d, hd, hdc, -⟩ := Buf.copy_clean Ev.dotIPAddr hc.dotIPAddr h0 hlt
    rw [hd]
    simp only [callInetPton, Exec.tellGet, hdc.terminated, if_true, Exec.tell_bind,
      Exec.mk_some_bind]
    rcases Nat.lt_or_eq_of_le h6 with hgt | heq
    · rw [Buf.copy_overflow Ev.strPort _ 0 _ (by omega) (by omega)]
      simp only [Exec.mk_none_bind]
      refine ⟨trivial, ⟨.strPort 6, ?_, by simp [Ev.InBounds]⟩, .strPort 5, ?_,
        by simp [Ev.Fits]⟩ <;> simp [List.mem_range']
    · obtain ⟨p, hp, hpT⟩ := Buf.copy_full Ev.strPort info.strPort
        (fun h => hr (List.takeWhile_subset _ h)) (l := r.takeWhile (· ≠ slash)) heq.symm
      rw [hp]
      simp only [callAtoi, Exec.tellGet, hpT, if_false, Exec.mk_some_bind, Exec.mk_none_bind]
      refine ⟨trivial, ⟨.atoi d p, ?_, by simp [Ev.InBounds, hpT]⟩, .strPort 5, ?_,
        by simp [Ev.Fits]⟩ <;> simp
  · -- the host fills its buffer
    obtain ⟨d, hd, hdT⟩ := Buf.copy_full Ev.dotIPAddr info.dotIPAddr h0 heq
    rw [hd]
    simp only [callInetPton, Exec.tellGet, hdT, if_false, Exec.tell_bind, Exec.mk_some_bind,
      Exec.mk_none_bind]
    refine ⟨trivial, ⟨.inetPton d info.strPort, ?_, by simp [Ev.InBounds, hdT]⟩, .dotIPAddr 17, ?_,
      by simp [Ev.Fits]⟩ <;> simp
  · rw [Buf.copy_overflow Ev.dotIPAddr _ 0 _ (by omega) (by omega)]
    simp only [Exec.tell_bind, Exec.mk_none_bind]
    refine ⟨trivial, ⟨.dotIPAddr 18, ?_, by simp [Ev.InBounds]⟩, .dotIPAddr 17, ?_,
      by simp [Ev.Fits]⟩ <;> simp [List.mem_range']

end

/-! ## The whole scan -/

section
variable (inetPton : InetPton) (flag : ℤ) (iplong : ℕ → UInt32)

theorem cutsFrom_colon (pre r : List UInt8) : cutsFrom colon slash pre (colon :: r) =
    (pre, r.takeWhile (· ≠ slash)) :: cutsFrom colon slash (pre ++ [colon]) r := by
  rw [cutsFrom, if_pos rfl]

theorem cutsFrom_cons_ne {c : UInt8} (hc : c ≠ colon) (pre r : List UInt8) :
    cutsFrom colon slash pre (c :: r) = cutsFrom colon slash (pre ++ [c]) r := by
  rw [cutsFrom, if_neg hc]

theorem notMem_concat {c : UInt8} {pre r : List UInt8} (h0 : 0 ∉ pre) (hr : 0 ∉ c :: r) :
    0 ∉ pre ++ [c] := by
  simp only [List.mem_append, List.mem_singleton, not_or]
  exact ⟨h0, fun h => hr (h ▸ List.mem_cons_self ..)⟩

/-- The loop when `pre` has been passed and `r` is left. -/
def scanAt (pre r : List UInt8) (info : URIInfo) : Exec Ev (ℤ × URIInfo) :=
  scan inetPton (rtspHead ++ (pre ++ r)) (rtspHead ++ (pre ++ r)).length flag iplong r.length
    (7 + pre.length) info

theorem charAt_uri (c : UInt8) (pre r : List UInt8) :
    charAt (rtspHead ++ (pre ++ c :: r)) (7 + pre.length) = c := by
  have h := charAt_append_cons (rtspHead ++ pre) c r
  rwa [List.append_assoc, List.length_append] at h

/-- What is left after one character. -/
theorem scanAt_concat (c : UInt8) (pre r : List UInt8) (info : URIInfo) :
    scanAt inetPton flag iplong (pre ++ [c]) r info =
      scan inetPton (rtspHead ++ (pre ++ c :: r)) (rtspHead ++ (pre ++ c :: r)).length flag iplong
        r.length (7 + pre.length + 1) info := by
  have hassoc : pre ++ [c] ++ r = pre ++ c :: r := by simp
  have hlen : 7 + (pre ++ [c]).length = 7 + pre.length + 1 := by
    rw [List.length_append, List.length_singleton]; omega
  rw [scanAt, hassoc, hlen]

theorem scanAt_cons_ne {c : UInt8} (hc : c ≠ colon) (pre r : List UInt8) (info : URIInfo) :
    scanAt inetPton flag iplong pre (c :: r) info =
      scanAt inetPton flag iplong (pre ++ [c]) r info := by
  rw [scanAt_concat, scanAt, List.length_cons, scan, charAt_uri, if_neg hc]

theorem scanAt_colon (pre r : List UInt8) (info : URIInfo) :
    scanAt inetPton flag iplong pre (colon :: r) info = (do
      let info ← colonBody inetPton (uriAt pre r) (uriAt pre r).length (7 + pre.length)
        (iplong (7 + pre.length)) info
      if oddPort info.intPort then do
        Exec.tell (.cout .nonEvenPort)
        return (-1, info)
      else scanAt inetPton flag iplong (pre ++ [colon]) r info) := by
  simp only [scanAt_concat, oddPort, decide_eq_true_eq]
  rw [scanAt, List.length_cons, scan, charAt_uri, if_pos rfl]

/-- The loop from a position on, if the copies fit. -/
theorem scanAt_fits : ∀ (r pre : List UInt8) (info : URIInfo), info.Clean → 0 ∉ pre → 0 ∉ r →
    CopiesFit info.getstrPort (cutsFrom colon slash pre r) →
    ∃ log info', scanAt inetPton flag iplong pre r info =
        ⟨log, some (if oddExit info.getstrPort (cutsFrom colon slash pre r) then -1 else flag,
          info')⟩ ∧
      VisitLog (portVisits info.getstrPort (cutsFrom colon slash pre r))
        (if oddExit info.getstrPort (cutsFrom colon slash pre r) then [.nonEvenPort] else []) log ∧
      info'.Clean ∧
      info'.endpoint = info.endpoint.visitAll inetPton iplong (cutsFrom colon slash pre r)
  | [], pre, info, hc, _, _, _ => ⟨[], info, rfl, ⟨rfl, rfl, by simp⟩, hc, rfl⟩
  | c :: r, pre, info, hc, h0, hr, hf => by
    have hcr : 0 ∉ r := fun h => hr (List.mem_cons_of_mem _ h)
    have hpc := notMem_concat h0 hr
    by_cases hcol : c = colon
    · subst hcol
      rw [cutsFrom_colon] at hf ⊢
      obtain ⟨⟨hhost, hport⟩, hrest⟩ := copiesFit_cons.1 hf
      obtain ⟨log, info', hbody, hlog, hc', he⟩ := colonBody_fits inetPton
        (iplong (7 + pre.length)) hc h0 hcr hhost hport
      have hv : info'.endpoint = info.endpoint.visit inetPton iplong
        (pre, r.takeWhile (· ≠ slash)) := he
      rw [scanAt_colon, hbody, Exec.mk_some_bind, portVisits, oddExit, reached, stopped,
        Endpoint.visitAll, scanUntil, ← hv]
      -- the visit as such, whatever its texts are
      generalize (pre, r.takeWhile (· ≠ slash)) = v at hlog hv hrest ⊢
      have hstr : info'.getstrPort = portStep info.getstrPort v := congrArg Endpoint.strPort hv
      have hodd : info'.endpoint.odd = portStop (portStep info.getstrPort v) :=
        congrArg portStop hstr
      have htest : oddPort info'.intPort = portStop (portStep info.getstrPort v) :=
        congrArg oddPort (congrArg Endpoint.intPort hv)
      rw [hodd, htest]
      cases hs : portStop (portStep info.getstrPort v) with
      | true =>
        refine ⟨log ++ [.cout .nonEvenPort], info', rfl, ?_, hc', by rw [if_pos rfl]⟩
        refine hlog.append ⟨rfl, rfl, ?_⟩
        intro e he
        rw [List.mem_singleton.1 he]; exact ⟨trivial, trivial⟩
      | false =>
        have hrest' := hrest hs
        rw [← hstr] at hrest'
        obtain ⟨log', info'', hscan, hlog', hc'', he''⟩ :=
          scanAt_fits r (pre ++ [colon]) info' hc' hpc hcr hrest'
        rw [hstr] at hscan hlog'
        refine ⟨log ++ log', info'', ?_, hlog.append hlog', hc'', ?_⟩
        · rw [if_neg Bool.false_ne_true, hscan]; rfl
        · rw [if_neg Bool.false_ne_true]; exact he''
    · rw [cutsFrom_cons_ne hcol] at hf ⊢
      rw [scanAt_cons_ne inetPton flag iplong hcol]
      exact scanAt_fits r (pre ++ [c]) info hc hpc hcr hf

/-- The loop from a position on, if some copy does not fit. -/
theorem scanAt_overflow : ∀ (r pre : List UInt8) (info : URIInfo), info.Clean → 0 ∉ pre →
    0 ∉ r → ¬ CopiesFit info.getstrPort (cutsFrom colon slash pre r) →
    (scanAt inetPton flag iplong pre r info).out = none ∧
      Overflows (scanAt inetPton flag iplong pre r info).log
  | [], pre, info, _, _, _, hf => absurd (by intro v hv; cases hv) hf
  | c :: r, pre, info, hc, h0, hr, hf => by
    have hcr : 0 ∉ r := fun h => hr (List.mem_cons_of_mem _ h)
    have hpc := notMem_concat h0 hr
    by_cases hcol : c = colon
    · subst hcol
      rw [cutsFrom_colon, copiesFit_cons, not_and_or, Classical.not_imp] at hf
      rw [scanAt_colon]
      by_cases hv : pre.length ≤ 17 ∧ (r.takeWhile (· ≠ slash)).length ≤ 5
      · -- this visit is fine, so the loop goes on to one that is not
        obtain ⟨hs, hrest⟩ := hf.resolve_left (not_not.2 hv)
        obtain ⟨log, info', hbody, -, hc', he⟩ := colonBody_fits inetPton
          (iplong (7 + pre.length)) hc h0 hcr hv.1 hv.2
        have hstr : info'.getstrPort = portStep info.getstrPort (pre, r.takeWhile (· ≠ slash)) :=
          congrArg Endpoint.strPort he
        have htest : oddPort info'.intPort = false :=
          (congrArg oddPort (congrArg Endpoint.intPort he)).trans hs
        rw [← hstr] at hrest
        obtain ⟨hnone, hlog⟩ := scanAt_overflow r (pre ++ [colon]) info' hc' hpc hcr hrest
        rw [hbody, Exec.mk_some_bind, htest, if_neg Bool.false_ne_true]
        exact ⟨hnone, hlog.mono (List.subset_append_right _ _)⟩
      · obtain ⟨hnone, hlog⟩ := colonBody_overflow inetPton (iplong (7 + pre.length)) hc h0 hcr hv
        rw [Exec.bind_of_none hnone]
        exact ⟨rfl, hlog⟩
    · rw [cutsFrom_cons_ne hcol] at hf
      rw [scanAt_cons_ne inetPton flag iplong hcol]
      exact scanAt_overflow r (pre ++ [c]) info hc hpc hcr hf

end

/-! ## `initURIInfo` -/

section
variable (inetPton : InetPton) (iplong : ℕ → UInt32) (w : CStr) {info : URIInfo}

/-- A string with a scheme is a text before it, the scheme, and what is scanned. -/
theorem strstr_rtspHead {substr : List UInt8} (h : strstr w.bytes rtspHead = some substr) :
    substr = rtspHead ++ substr.drop 7 ∧ substr.length - 7 = (substr.drop 7).length ∧
      0 ∉ substr.drop 7 := by
  obtain ⟨u, hw, ⟨t, rfl⟩, -⟩ := strstr_eq_some_iff.1 h
  have hd : (rtspHead ++ t).drop 7 = t := rfl
  refine ⟨by rw [hd], by rw [hd]; simp [rtspHead, ascii], fun h0 => w.nulFree ?_⟩
  rw [hd] at h0
  rw [hw]; simp [h0]

/-- What the call writes to `cout`. -/
def parseMsgs (port : List UInt8) (w : CStr) : List Msg :=
  if strstr w.bytes rtspHead = none then [.invalidInput]
  else if oddExit port (visits w) then [.nonEvenPort] else []

/-- **`initURIInfo` refines `Endpoint.parse`** if the copies fit. -/
theorem initURIInfo_fits (hc : info.Clean) (hf : CopiesFit info.getstrPort (visits w)) :
    ∃ log info', initURIInfo inetPton iplong w info = ⟨log, some (-1, info')⟩ ∧
      VisitLog (portVisits info.getstrPort (visits w)) (parseMsgs info.getstrPort w) log ∧
      info'.Clean ∧ info'.endpoint = info.endpoint.parse inetPton iplong w := by
  have hc' : ({ info with URI := w } : URIInfo).Clean := ⟨hc.dotIPAddr, hc.strPort⟩
  unfold initURIInfo parseURI Endpoint.parse parseMsgs
  unfold visits at hf ⊢
  cases hs : strstr w.bytes rtspHead with
  | none =>
    refine ⟨[.cout .invalidInput], _, rfl, ⟨rfl, rfl, ?_⟩, hc', rfl⟩
    intro e he
    rw [List.mem_singleton.1 he]; exact ⟨trivial, trivial⟩
  | some substr =>
    obtain ⟨hsub, hlen, h0⟩ := strstr_rtspHead w hs
    simp only [hs] at hf
    have := scanAt_fits inetPton (-1) iplong (substr.drop 7) [] _ hc' List.not_mem_nil h0 hf
    rw [scanAt, List.nil_append, ← hsub, ← hlen] at this
    simp only [ite_self] at this
    simp only [reduceCtorEq, if_false]
    exact this

/-- **Undefined behaviour** if some copy does not fit. -/
theorem initURIInfo_overflow (hc : info.Clean) (hf : ¬ CopiesFit info.getstrPort (visits w)) :
    (initURIInfo inetPton iplong w info).out = none ∧
      Overflows (initURIInfo inetPton iplong w info).log := by
  have hc' : ({ info with URI := w } : URIInfo).Clean := ⟨hc.dotIPAddr, hc.strPort⟩
  unfold initURIInfo parseURI
  unfold visits at hf
  cases hs : strstr w.bytes rtspHead with
  | none => simp only [hs] at hf; exact absurd (by intro v hv; cases hv) hf
  | some substr =>
    obtain ⟨hsub, hlen, h0⟩ := strstr_rtspHead w hs
    simp only [hs] at hf
    have := scanAt_overflow inetPton (-1) iplong (substr.drop 7) [] _ hc' List.not_mem_nil h0 hf
    rwa [scanAt, List.nil_append, ← hsub, ← hlen] at this

/-! ## What a run leaves -/

/-- The call returns, and the getters return `e` afterwards. -/
def Leaves (run : Exec Ev (ℤ × URIInfo)) (e : Endpoint) : Prop :=
  ∃ flag info', run.out = some (flag, info') ∧ info'.endpoint = e

theorem leaves_iff (hc : info.Clean) (e : Endpoint) :
    Leaves (initURIInfo inetPton iplong w info) e ↔
      CopiesFit info.getstrPort (visits w) ∧ info.endpoint.parse inetPton iplong w = e := by
  by_cases hf : CopiesFit info.getstrPort (visits w)
  · obtain ⟨log, info', hrun, -, -, he⟩ := initURIInfo_fits inetPton iplong w hc hf
    rw [Leaves, hrun, ← he]
    constructor
    · rintro ⟨flag, info'', h, rfl⟩
      cases h; exact ⟨hf, rfl⟩
    · rintro ⟨-, rfl⟩
      exact ⟨-1, info', rfl, rfl⟩
  · have hnone := (initURIInfo_overflow inetPton iplong w hc hf).1
    constructor
    · rintro ⟨flag, info', h, -⟩
      rw [hnone] at h; cases h
    · exact fun h => absurd h.1 hf

end

end RayionClient
