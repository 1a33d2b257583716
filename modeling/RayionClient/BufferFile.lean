/-
  The buffer file while the client runs.

  `main` and the two threads run interleaved, the poll thread of the session goes
  on receiving, and the file may be read by others at any time
  (`FILE_SHARE_READ`).

  * `ClientRun.file`: what is in the file at any moment, and what is still to come.
  * `ClientRun.roundEnds`: the round ends under every schedule that lets the RTP
    thread act often enough.
-/
import RayionClient.Schedules
import RayionClient.Stream

namespace RayionClient

open Base

/-! ## In the middle of a round -/

namespace Receiver

/-- The packet that has been delivered and is not in the file yet. -/
def inHand : Receiver → Option RTPPacket
  | inside _ (.getPayloadData p :: _) | inside _ (.getPayloadLength p :: _)
  | inside _ (.writeFile (.payload p _) _ :: _) => some p.packet
  | _ => none

variable {tr : List Call} {c : Receiver}

/-- What is owed is owed for the packet delivered last. -/
theorem todo_suffix (h : Run Step starting tr c) : c.todo = [] ∨
    ∃ p : Packet, ∃ front, delivered tr = front ++ [p.packet] ∧ c.todo <:+ p.use := by
  induction h with
  | start => exact Or.inl rfl
  | @snoc tr c c' call h hs ih =>
    cases hs with
    | packet p => exact Or.inr ⟨p, _, delivered_append .., List.suffix_rfl⟩
    | work n call todo' =>
      rcases ih with hnil | ⟨p, front, hd, hsuffix⟩
      · cases hnil
      · have howed := ((inv h).owed call (by simp [todo])).2.2
        refine Or.inr ⟨p, front, ?_, (List.suffix_cons ..).trans hsuffix⟩
        rw [delivered_append, delivered_of_not_endsUse howed, List.append_nil, hd]
    | _ => exact Or.inl rfl

/-- Either all is still to be done for the file, or nothing. -/
theorem inHand_of_suffix {p : Packet} (h : c.todo <:+ p.use) :
    (c.inHand = some p.packet ∧
        ∀ file, c.todo.foldl fileStep file = p.use.foldl fileStep file) ∨
      (c.inHand = none ∧ ∀ file, c.todo.foldl fileStep file = file) := by
  cases c with
  | inside n todo' =>
    obtain ⟨k, rfl⟩ : ∃ k, todo' = p.use.drop k := ⟨_, List.suffix_iff_eq_drop.1 h⟩
    rcases k with _ | _ | _ | _ | k
    · exact Or.inl ⟨rfl, fun _ => rfl⟩
    · exact Or.inl ⟨rfl, fun _ => rfl⟩
    · exact Or.inl ⟨rfl, fun _ => rfl⟩
    · exact Or.inr ⟨rfl, fun _ => rfl⟩
    · rw [List.drop_eq_nil_of_le (by simp [Packet.use])]
      exact Or.inr ⟨rfl, fun _ => rfl⟩
  | _ => exact Or.inr ⟨rfl, fun _ => rfl⟩

/-- **The file at any moment**: all that was delivered, up to the packet in hand. -/
theorem file_now (h : Run Step starting tr c) (hc : c ≠ starting)
    (hlen : ∀ packet ∈ delivered tr, 4 ≤ packet.payload.bytes.length) :
    ∃ written, delivered tr = written ++ c.inHand.toList ∧
      fileAfter tr = some (written.flatMap RTPPacket.media) := by
  have hfile : c.todo.foldl fileStep (fileAfter tr) =
      some ((delivered tr).flatMap RTPPacket.media) := by
    rw [← fileAfter_append]
    have hI := file_eq h hlen
    cases c with
    | starting => exact absurd rfl hc
    | _ => exact hI
  -- nothing is left to be written
  have hdone : c.inHand = none → (∀ file, c.todo.foldl fileStep file = file) →
      ∃ written, delivered tr = written ++ c.inHand.toList ∧
        fileAfter tr = some (written.flatMap RTPPacket.media) := by
    intro hhand hfold
    rw [hfold] at hfile
    exact ⟨delivered tr, by simp [hhand], hfile⟩
  rcases todo_suffix h with hnil | ⟨p, front, hd, hsuffix⟩
  · have hhand : c.inHand = none := by
      cases c with
      | inside n todo' => cases hnil; rfl
      | _ => rfl
    exact hdone hhand fun file => by rw [hnil]; rfl
  · rcases inHand_of_suffix hsuffix with ⟨hhand, hfold⟩ | ⟨hhand, hfold⟩
    · have hp : 4 ≤ p.payload.length := hlen p.packet (by simp [hd])
      rw [hfold] at hfile
      refine ⟨front, by rw [hd, hhand]; rfl, ?_⟩
      cases hnow : fileAfter tr with
      | none =>
        rw [hnow] at hfile
        simp [Packet.use, fileStep] at hfile
      | some bytes =>
        rw [hnow, foldl_use hp, hd, List.flatMap_append, List.flatMap_singleton] at hfile
        rw [List.append_cancel_right (Option.some.inj hfile)]
    · exact hdone hhand hfold

/-- The file is created when the receiver has left its first state. -/
theorem createFile_mem (h : Run Step starting tr c) : .createFile ∈ tr ↔ c ≠ starting := by
  induction h with
  | start => simp
  | @snoc tr c c' call h hs ih =>
    rw [List.mem_append, ih, List.mem_singleton]
    cases hs with
    | work n call todo' => simp
    | _ => simp

/-- The file is created once. -/
theorem createFile_notMem {pre post : List Call} (h : Run Step starting (pre ++ post) c)
    (hpre : .createFile ∈ pre) : .createFile ∉ post := by
  intro hpost
  obtain ⟨mid, rest, rfl⟩ := List.append_of_mem hpost
  rw [← List.append_assoc] at h
  obtain ⟨m, m', hrun, hs⟩ := h.at_split rfl
  have hmem : Call.createFile ∈ pre ++ mid := List.mem_append_left _ hpre
  cases hs with
  | createFile => exact (createFile_mem hrun).1 hmem rfl
  | work n call todo' =>
    -- it is not among the calls that are owed
    rcases todo_suffix hrun with hnil | ⟨p, front, -, hsuffix⟩
    · cases hnil
    · have howed : Call.createFile ∈ p.use := hsuffix.subset (by simp [todo])
      simp [Packet.use] at howed

end Receiver

/-- A call that does not create the file only appends to it. -/
theorem fileStep_some {file : Option (List UInt8)} {call : Call} {bytes' : List UInt8}
    (hcall : call ≠ .createFile) (h : fileStep file call = some bytes') :
    ∃ bytes, file = some bytes ∧ bytes <+: bytes' := by
  cases call with
  | createFile => exact absurd rfl hcall
  | writeFile buf count =>
    obtain ⟨bytes, rfl, h⟩ := Option.bind_eq_some_iff.1 h
    obtain ⟨written, -, h⟩ := Option.bind_eq_some_iff.1 h
    cases h
    exact ⟨bytes, rfl, List.prefix_append ..⟩
  | _ => exact ⟨bytes', h, List.prefix_rfl⟩

theorem foldl_fileStep_prefix {post : List Call} {bytes : List UInt8}
    (hpost : .createFile ∉ post) : ∀ {bytes' : List UInt8},
      post.foldl fileStep (some bytes) = some bytes' → bytes <+: bytes' := by
  induction post using List.reverseRecOn with
  | nil =>
    intro bytes' h
    cases h; exact List.prefix_rfl
  | append_singleton post call ih =>
    intro bytes' h
    rw [List.mem_append, List.mem_singleton, not_or] at hpost
    rw [List.foldl_append] at h
    obtain ⟨mid, hmid, hpre⟩ := fileStep_some (Ne.symm hpost.2) h
    exact (ih hpost.1 hmid).trans hpre

/-- The packet that a frame holds and has not written. -/
def Frame.inHand {σ : Type} (f : Frame σ) : Option RTPPacket :=
  match f.pc with
  | .getPayloadData | .getPayloadLength | .writeFile => f.packet.map Packet.packet
  | _ => none

theorem Tracks.inHand_eq {σ : Type} {f : Frame σ} {c : Receiver} (ht : Tracks f c) :
    c.inHand = f.inHand := by
  have hstate := ht.state
  rw [Frame.inHand]
  cases hpc : f.pc with
  | addDestination | starttime | createFile =>
    simp only [hpc] at hstate
    rw [hstate.1]; rfl
  | getPayloadData =>
    simp only [hpc] at hstate
    obtain ⟨p, hp, rfl⟩ := hstate
    rw [hp]; rfl
  | getPayloadLength =>
    simp only [hpc] at hstate
    obtain ⟨p, hp, -, rfl⟩ := hstate
    rw [hp]; rfl
  | writeFile =>
    simp only [hpc] at hstate
    obtain ⟨p, hp, -, -, rfl⟩ := hstate
    rw [hp]; rfl
  | deletePacket =>
    simp only [hpc] at hstate
    obtain ⟨p, -, rfl⟩ := hstate
    rfl
  | returned => simp only [hpc] at hstate
  | _ =>
    simp only [hpc] at hstate
    rw [hstate]; rfl

/-! ## The RTP thread in the client -/

theorem recvCalls_append (tr tr' : List Action) :
    recvCalls (tr ++ tr') = recvCalls tr ++ recvCalls tr' := List.filterMap_append

section
variable {σ : Type} {P : Platform σ} {w : CStr} {info : URIInfo} {tr : List Action}
  {c c' : Client σ} {a : Action} {port : ℤ} {f : Frame σ}

/-- The RTP thread is there on a parsed URI only. -/
theorem ClientRun.parses_of_rtp (hrun : ClientRun P w tr c) {r : Rtp σ} (hrtp : c.rtp = some r) :
    ∃ info, Parses P w info := by
  have htr : tr ≠ [] := by
    rintro rfl
    obtain rfl := Run.nil_iff.1 hrun
    cases hrtp
  obtain ⟨flag, info, hp⟩ := hrun.parses htr
  exact ⟨info, flag, hp⟩

/-- What the RTP thread has done is a run of `recvPackets`. -/
theorem ClientRun.frame (hrun : ClientRun P w tr c) (hp : Parses P w info)
    (hrtp : c.rtp = some (.recvPackets port f)) : port = (P.rtpParam info).RTPPort ∧
      RecvRun P.lib (rtpHandler (P.rtpParam info)) P.session (recvCalls tr) f := by
  have h := (clientRun_iff_interleaves hp).1 ⟨c, hrun, rfl⟩
  have hat := rtpRun_at (h.parts .rtpHandler)
  change RtpAt _ _ _ (c.rtp.getD .initRTPHandler) at hat
  rw [hrtp] at hat
  obtain ⟨hport, calls, hcalls, heq⟩ := hat
  have hpart : recvCalls tr = calls := by
    rw [← recvCalls_part, ← recvCalls_map calls]
    change recvCalls ((P.threads w info).part .rtpHandler tr) = _
    rw [heq]; rfl
  exact ⟨hport, hpart ▸ hcalls⟩

/-- A turn of the client moves the RTP thread, or leaves it alone. -/
theorem ClientRun.rtp_turn (hrun : ClientRun P w tr c) (hp : Parses P w info) {turn : Turn}
    (hs : clientStep P w c turn = some (a, c')) {r : Rtp σ} (hrtp : c.rtp = some r) :
    a.owner = .rtpHandler ∧
        (∃ r', rtpStep P (P.rtpParam info) r = some (a, r') ∧ c'.rtp = some r') ∨
      a.owner ≠ .rtpHandler ∧ c'.rtp = some r := by
  have hc := hrun.holdsInv hp
  have hstep := hc.pStep hs
  have hlive : c'.rtp ≠ none := (hstep.live .rtpHandler).2 (Or.inl (by simp [Client.pool, hrtp]))
  obtain ⟨r', hr'⟩ := Option.ne_none_iff_exists'.1 hlive
  by_cases hown : a.owner = .rtpHandler
  · refine Or.inl ⟨hown, r', ?_, hr'⟩
    have hmoves := hstep.moves
    have hown' : (P.threads w info).owner a = .rtpHandler := hown
    rw [hown'] at hmoves
    change rtpStep P (P.rtpParam info) (c.rtp.getD .initRTPHandler) =
      some (a, c'.rtp.getD .initRTPHandler) at hmoves
    rwa [hrtp, hr'] at hmoves
  · refine Or.inr ⟨hown, ?_⟩
    have hframe := hstep.frame .rtpHandler (Ne.symm hown)
    change c'.rtp.getD .initRTPHandler = c.rtp.getD .initRTPHandler at hframe
    rw [hrtp, hr'] at hframe
    rw [hr']; exact congrArg some hframe

/-- The RTP thread goes on alone. -/
theorem clientRun_of_recvRun {param : RtpParam} {calls : List Call} {f' : Frame σ}
    (hrtp : c.rtp = some (.recvPackets port f)) (hparam : c.main.rtpParam = some param)
    (h : Run (fun f call f' =>
      recvStep P.lib (initRTPHandler param.IPAddr port) f = some (call, f')) f calls f') :
    Run (fun c a c' => ∃ turn, clientStep P w c turn = some (a, c')) c
      (calls.map .recvPackets) { c with rtp := some (.recvPackets port f') } := by
  induction h with
  | start => rw [← hrtp]; exact .start
  | @snoc calls f f' call h hs ih =>
    rw [List.map_append]
    refine ih.snoc ⟨.rtpHandler, ?_⟩
    have hpc : f.pc ≠ .returned := by
      intro hpc
      rw [recvStep, hpc] at hs; cases hs
    have hstep : rtpStep P param (.recvPackets port f) =
        some (.recvPackets call, .recvPackets port f') := by
      rw [rtpStep, if_neg hpc, hs]; rfl
    simp only [clientStep, hparam, hstep, Option.bind_eq_bind, Option.bind_some]; rfl

end

/-! ## The tables of the RTP thread -/

section
variable {σ : Type}

/-- The steps of `recvPackets` in a run of the client that has got to frame `f`, together with the
    tables that they have opened. -/
structure Opens (P : Platform σ) (v : SessionView σ) (w : CStr) (tr : List Action) (f : Frame σ)
    (steps : List (Call × List (List RTPSourceData))) : Prop where
  run : ∃ info, Parses P w info ∧ TableRun P.lib v (rtpHandler (P.rtpParam info)) P.session steps f
  calls : calls steps = recvCalls tr

variable {P : Platform σ} {v : SessionView σ} {w : CStr} {tr tr' : List Action}
  {c c' : Client σ} {port : ℤ} {f : Frame σ} {steps : List (Call × List (List RTPSourceData))}

/-- `initURIInfo` leaves one result. -/
theorem Parses.unique {info info' : URIInfo} (hp : Parses P w info) (hp' : Parses P w info') :
    info = info' := by
  obtain ⟨flag, hflag⟩ := hp
  obtain ⟨flag', hflag'⟩ := hp'
  rw [hflag] at hflag'
  exact (Prod.mk.inj (Option.some.inj hflag')).2

/-- Every run of the client opens tables. -/
theorem ClientRun.exists_opens (v : SessionView σ) (hrun : ClientRun P w tr c)
    (hrtp : c.rtp = some (.recvPackets port f)) : ∃ steps, Opens P v w tr f steps := by
  obtain ⟨info, hp⟩ := hrun.parses_of_rtp hrtp
  obtain ⟨steps, hsteps, hcalls⟩ := RecvRun.exists_tableRun (v := v) (hrun.frame hp hrtp).2
  exact ⟨steps, ⟨info, hp, hsteps⟩, hcalls⟩

/-- An action of another thread opens nothing. -/
theorem Opens.other {a : Action} (ho : Opens P v w tr f steps) (ha : a.owner ≠ .rtpHandler) :
    Opens P v w (tr ++ [a]) f steps := by
  refine ⟨ho.run, ?_⟩
  have hnone : recvCalls [a] = [] := by
    cases a with
    | recvPackets call => exact absurd rfl ha
    | _ => rfl
  rw [ho.calls, recvCalls_append, hnone, List.append_nil]

/-! ## The file at any moment -/

/-- What was written, what is in hand and what is queued make up what was received. -/
theorem TableRun.written {h : RTPHandler} (hlib : P.lib.Documented v)
    (hrun : TableRun P.lib v h P.session steps f) (hfile : .createFile ∈ calls steps)
    (hlen : ∀ packet ∈ delivered (calls steps), 4 ≤ packet.payload.bytes.length) :
    ∃ written, delivered (calls steps) = written ++ f.inHand.toList ∧
      fileAfter (calls steps) = some (written.flatMap RTPPacket.media) ∧
      written ++ f.inHand.toList ++ unread v f = received steps := by
  obtain ⟨c, hc, ht⟩ := RecvRun.receiver hrun.recvRun
  obtain ⟨written, hd, hnow⟩ := Receiver.file_now hc ((Receiver.createFile_mem hc).1 hfile) hlen
  rw [ht.inHand_eq] at hd
  refine ⟨written, hd, hnow, ?_⟩
  rw [← hd]
  exact (TableRun.flow hlib hrun).balance

/-- A later look at the file shows all of an earlier one. -/
theorem RecvRun.file_prefix {h : RTPHandler} {calls : List Call}
    (hrun : RecvRun P.lib h P.session calls f) {pre : List Call}
    (hpre : pre <+: calls) (hfile : .createFile ∈ pre)
    (hlen : ∀ packet ∈ delivered calls, 4 ≤ packet.payload.bytes.length) :
    ∃ bytes more, fileAfter pre = some bytes ∧ fileAfter calls = some (bytes ++ more) := by
  obtain ⟨post, rfl⟩ := hpre
  have hnow : ∀ {calls f}, RecvRun P.lib h P.session calls f → .createFile ∈ calls →
      (∀ packet ∈ delivered calls, 4 ≤ packet.payload.bytes.length) →
      ∃ bytes, fileAfter calls = some bytes := by
    intro calls f hrun hfile hlen
    obtain ⟨c, hc, -⟩ := RecvRun.receiver hrun
    obtain ⟨written, -, hnow⟩ := Receiver.file_now hc ((Receiver.createFile_mem hc).1 hfile) hlen
    exact ⟨_, hnow⟩
  obtain ⟨f₀, hrun₀⟩ := Run.of_prefix hrun (List.prefix_append pre post)
  obtain ⟨bytes, hbytes⟩ := hnow hrun₀ hfile fun packet hp =>
    hlen packet (by rw [delivered_append]; exact List.mem_append_left _ hp)
  obtain ⟨bytes', hbytes'⟩ := hnow hrun (List.mem_append_left _ hfile) hlen
  obtain ⟨c, hc, -⟩ := RecvRun.receiver hrun
  have hfold := hbytes'
  rw [fileAfter_append, hbytes] at hfold
  obtain ⟨more, rfl⟩ := foldl_fileStep_prefix (Receiver.createFile_notMem hc hfile) hfold
  exact ⟨bytes, more, hbytes, hbytes'⟩

/-- **What a reader of the file sees**, under every schedule: all packets received so far but for
    the one in hand and those still queued, and later only more of the same. -/
theorem ClientRun.file (hlib : P.lib.Documented v) (hrun : ClientRun P w tr c)
    (hrtp : c.rtp = some (.recvPackets port f)) (hfile : .createFile ∈ recvCalls tr)
    (hlen : ∀ packet ∈ delivered (recvCalls tr), 4 ≤ packet.payload.bytes.length) :
    (∃ steps, Opens P v w tr f steps) ∧
    (∀ steps, Opens P v w tr f steps → ∃ written,
      delivered (recvCalls tr) = written ++ f.inHand.toList ∧
      fileAfter (recvCalls tr) = some (written.flatMap RTPPacket.media) ∧
      written ++ f.inHand.toList ++ unread v f = received steps) ∧
    ∀ pre, pre <+: tr → .createFile ∈ recvCalls pre → ∃ bytes more,
      fileAfter (recvCalls pre) = some bytes ∧ fileAfter (recvCalls tr) = some (bytes ++ more) := by
  refine ⟨hrun.exists_opens v hrtp, ?_, ?_⟩
  · intro steps hopens
    obtain ⟨info, -, hsteps⟩ := hopens.run
    rw [← hopens.calls] at hfile hlen ⊢
    exact hsteps.written hlib hfile hlen
  · rintro pre ⟨post, rfl⟩ hpre
    obtain ⟨info, hp⟩ := hrun.parses_of_rtp hrtp
    have hrecv := (hrun.frame hp hrtp).2
    exact hrecv.file_prefix ⟨_, (recvCalls_append pre post).symm⟩ hpre hlen

end

/-! ## A client that receives packets -/

/-- The server sends the packets of two rounds. -/
def receivingPlatform : Platform SourceTable := { livePlatform with lib := twoPollSession }

/-- The first calls of `recvPackets`, with the tables. -/
def receiving (info : URIInfo) (n : ℕ) :
    List (Call × List (List RTPSourceData)) × Frame SourceTable :=
  runFor (tableStep receivingPlatform.lib SourceTable.view
    (rtpHandler (receivingPlatform.rtpParam info))) n (.entry receivingPlatform.session)

/-- The RTP thread gets to any of them. -/
theorem exists_receiving (n : ℕ) : ∃ info tr c, ClientRun receivingPlatform liveURI tr c ∧
    c.main.rtpParam = some (receivingPlatform.rtpParam info) ∧
    c.rtp = some (.recvPackets rtpPort (receiving info n).2) ∧
    Opens receivingPlatform SourceTable.view liveURI tr (receiving info n).2
      (receiving info n).1 := by
  obtain ⟨flag, info, hp⟩ := liveURI_parsed
  obtain ⟨c, hrun, -, -, hparam, hrtp⟩ := exists_started (P := receivingPlatform) hp rfl
  have hsteps : TableRun receivingPlatform.lib SourceTable.view
      (rtpHandler (receivingPlatform.rtpParam info)) receivingPlatform.session
      (receiving info n).1 (receiving info n).2 := run_runFor _ _ n
  have hmore := clientRun_of_recvRun (w := liveURI) hrtp hparam hsteps.recvRun
  refine ⟨info, _, _, hrun.append hmore, hparam, rfl, ⟨info, ⟨flag, hp⟩, hsteps⟩, ?_⟩
  rw [recvCalls_append, recvCalls_map]; rfl

/-- One packet is written, one in hand, and one queued. -/
theorem file_receiving : ∃ tr c f steps, ClientRun receivingPlatform liveURI tr c ∧
    c.rtp = some (.recvPackets rtpPort f) ∧
    Opens receivingPlatform SourceTable.view liveURI tr f steps ∧
    f.inHand = some ⟨7, [0, 0, 0, 0, 66, 67], by decide⟩ ∧
    unread SourceTable.view f = [⟨9, [1, 2, 3, 4, 68], by decide⟩] ∧
    (∃ written, delivered (recvCalls tr) = written ++ f.inHand.toList ∧
      fileAfter (recvCalls tr) = some (written.flatMap RTPPacket.media) ∧
      written ++ f.inHand.toList ++ unread SourceTable.view f = received steps) ∧
    ∀ pre, pre <+: tr → .createFile ∈ recvCalls pre → ∃ bytes more,
      fileAfter (recvCalls pre) = some bytes ∧ fileAfter (recvCalls tr) = some (bytes ++ more) := by
  obtain ⟨info, tr, c, hrun, -, hrtp, hopens⟩ := exists_receiving 11
  have hlib : receivingPlatform.lib.Documented SourceTable.view := twoPollSession_documented
  have hfile : .createFile ∈ recvCalls tr := by
    rw [← hopens.calls]; exact List.mem_of_getElem? (i := 2) rfl
  have hlen : ∀ packet ∈ delivered (recvCalls tr), 4 ≤ packet.payload.bytes.length := by
    have hd : delivered (recvCalls tr) = (queued (twoPolls 0 [])).take 2 := by
      rw [← hopens.calls]; rfl
    rw [hd]; decide
  obtain ⟨-, hnow, hearlier⟩ := ClientRun.file hlib hrun hrtp hfile hlen
  exact ⟨tr, c, _, _, hrun, hrtp, hopens, rfl, rfl, hnow _ hopens, hearlier⟩

/-! ## The end of the round -/

section
variable {σ : Type} {P : Platform σ} {v : SessionView σ} {w : CStr} {tr tr' : List Action}
  {c c' : Client σ} {port : ℤ} {f : Frame σ} {steps : List (Call × List (List RTPSourceData))}

/-- An action of the RTP thread in the middle of a round. -/
theorem Opens.own {a : Action} {r' : Rtp σ} {info : URIInfo} (hlib : P.lib.Documented v)
    (ho : Opens P v w tr f steps) (hp : Parses P w info) (hport : port = (P.rtpParam info).RTPPort)
    (hpc : f.pc ≠ .loop) (hs : rtpStep P (P.rtpParam info) (.recvPackets port f) = some (a, r')) :
    ∃ f' steps', r' = .recvPackets port f' ∧ Opens P v w (tr ++ [a]) f' steps' ∧
      tables steps' = tables steps ∧ callsLeft v f' < callsLeft v f := by
  obtain ⟨⟨info', hp', hsteps⟩, hcalls⟩ := ho
  obtain rfl : info' = info := hp'.unique hp
  obtain ⟨k, -, htracks⟩ := RecvRun.receiver hsteps.recvRun
  have hret : f.pc ≠ .returned := by
    intro hret
    have hstate := htracks.state
    simp only [hret] at hstate
  rw [rtpStep, if_neg hret, hport] at hs
  obtain ⟨⟨call, f'⟩, hcall, heq⟩ := Option.map_eq_some_iff.1 hs
  cases heq
  obtain ⟨hne, hlt⟩ := ((TableRun.flow hlib hsteps).step hlib hcall).2.resolve_left hpc
  refine ⟨f', _, by rw [hport], ⟨⟨info', hp', hsteps.snoc (tableStep_recvStep hcall)⟩, ?_⟩, ?_, hlt⟩
  · rw [calls_concat, hcalls, recvCalls_append]; rfl
  · rw [tables_concat, show opened v call f'.session = [] from if_neg hne, List.append_nil]

/-- An action in the middle of a round: of the RTP thread, or of another. -/
theorem ClientRun.round_step (hlib : P.lib.Documented v) (hrun : ClientRun P w tr c)
    (hrtp : c.rtp = some (.recvPackets port f)) (hopens : Opens P v w tr f steps)
    (hpc : f.pc ≠ .loop) {turn : Turn} {a : Action} (hs : clientStep P w c turn = some (a, c')) :
    ∃ f' steps', c'.rtp = some (.recvPackets port f') ∧ Opens P v w (tr ++ [a]) f' steps' ∧
      tables steps' = tables steps ∧
      (a.owner = .rtpHandler → callsLeft v f' < callsLeft v f) ∧
      (a.owner ≠ .rtpHandler → f' = f) := by
  obtain ⟨info, hp⟩ := hrun.parses_of_rtp hrtp
  rcases hrun.rtp_turn hp hs hrtp with ⟨hown, r', hstep, hr'⟩ | ⟨hown, hr'⟩
  · obtain ⟨f', steps', rfl, ho', htables, hlt⟩ :=
      hopens.own hlib hp (hrun.frame hp hrtp).1 hpc hstep
    exact ⟨f', steps', hr', ho', htables, fun _ => hlt, fun hne => absurd hown hne⟩
  · exact ⟨f, steps, hr', hopens.other hown, rfl, fun heq => absurd heq hown, fun _ => rfl⟩

/-- Only before the test of the loop there are no calls left. -/
theorem Tracks.loop_of_callsLeft {k : Receiver} (ht : Tracks f k) (h0 : callsLeft v f = 0) :
    f.pc = .loop := by
  have hstate := ht.state
  cases hpc : f.pc with
  | loop => rfl
  | returned => simp only [hpc] at hstate
  | _ => simp [callsLeft, hpc] at h0

theorem RoundEnd.not_locked {lib : RTPSession σ} {h : RTPHandler} {session : σ} {n : ℕ}
    (he : RoundEnd lib v h session n steps f) : ¬ Locked (calls steps) := by
  obtain ⟨hrun, hpc, -⟩ := he
  obtain ⟨k, hk, ht⟩ := RecvRun.receiver hrun.recvRun
  have hstate := ht.state
  rw [hpc] at hstate
  rw [(Receiver.inv hk).locked]
  rintro ⟨n, todo, hin⟩
  rw [hstate] at hin; cases hin

/-- The calls that the RTP thread needs to end its round. -/
def Client.callsLeft (v : SessionView σ) (c : Client σ) : ℕ :=
  match c.rtp with
  | some (.recvPackets _ f) => RayionClient.callsLeft v f
  | _ => 0

theorem callsLeft_le (f : Frame σ) : callsLeft v f ≤
    5 * (unread v f).length + 2 * (v.sources f.session).length + 7 := by
  rw [callsLeft]
  cases f.pc <;> simp only <;> omega

/-- `recvPackets` has opened these tables, and no others. -/
def Client.InRound (P : Platform σ) (v : SessionView σ) (w : CStr) (port : ℤ)
    (sources : List (List RTPSourceData)) (tr : List Action) (c : Client σ) : Prop :=
  ClientRun P w tr c ∧ ∃ f steps, c.rtp = some (.recvPackets port f) ∧ Opens P v w tr f steps ∧
    tables steps = sources

/-- `recvPackets` is about to test its loop. -/
def Client.AtLoop (port : ℤ) (c : Client σ) : Prop :=
  ∃ f, c.rtp = some (.recvPackets port f) ∧ f.pc = .loop

/-- Whatever the other threads do, the RTP thread comes back to its test. -/
theorem ClientRun.passes_loop (hlib : P.lib.Documented v) (hrun : ClientRun P w tr c)
    (hrtp : c.rtp = some (.recvPackets port f)) (hopens : Opens P v w tr f steps)
    (hmore : Run (fun c a c' => ∃ turn, clientStep P w c turn = some (a, c')) c tr' c')
    (hcount : callsLeft v f ≤ tr'.countP (·.owner = .rtpHandler)) :
    ∃ pre, ∃ m : Client σ, pre <+: tr' ∧ m.InRound P v w port (tables steps) (tr ++ pre) ∧
      m.AtLoop port := by
  have hzero : ∀ pre c, Client.InRound P v w port (tables steps) (tr ++ pre) c →
      c.callsLeft v = 0 → c.AtLoop port := by
    rintro pre c ⟨-, f₁, steps₁, hf₁, ⟨⟨info, hp, hsteps⟩, -⟩, -⟩ h0
    rw [Client.callsLeft, hf₁] at h0
    obtain ⟨k, -, htracks⟩ := RecvRun.receiver hsteps.recvRun
    exact ⟨f₁, hf₁, htracks.loop_of_callsLeft h0⟩
  have hstep : ∀ pre c a c', Client.InRound P v w port (tables steps) (tr ++ pre) c →
      ¬ c.AtLoop port → (∃ turn, clientStep P w c turn = some (a, c')) →
      c'.InRound P v w port (tables steps) (tr ++ (pre ++ [a])) ∧
        (decide (a.owner = .rtpHandler) = true → c'.callsLeft v < c.callsLeft v) ∧
        (decide (a.owner = .rtpHandler) = false → c'.callsLeft v ≤ c.callsLeft v) := by
    rintro pre c a c' ⟨hc, f₁, steps₁, hf₁, ho₁, htables₁⟩ hgoal ⟨turn, hs⟩
    obtain ⟨f₂, steps₂, hf₂, ho₂, htables₂, hown, hother⟩ :=
      hc.round_step hlib hf₁ ho₁ (fun hpc => hgoal ⟨f₁, hf₁, hpc⟩) hs
    rw [← List.append_assoc]
    refine ⟨⟨hc.snoc ⟨turn, hs⟩, f₂, steps₂, hf₂, ho₂, htables₂.trans htables₁⟩, ?_, ?_⟩
    · intro h
      rw [Client.callsLeft, Client.callsLeft, hf₁, hf₂]
      exact hown (of_decide_eq_true h)
    · intro h
      rw [Client.callsLeft, Client.callsLeft, hf₁, hf₂, hother (of_decide_eq_false h)]
  have hstart : c.callsLeft v ≤ tr'.countP (·.owner = .rtpHandler) := by
    rw [Client.callsLeft, hrtp]; exact hcount
  have hround : c.InRound P v w port (tables steps) (tr ++ []) := by
    rw [List.append_nil]
    exact ⟨hrun, f, steps, hrtp, hopens, rfl⟩
  obtain ⟨pre, m, hpre, -, hm, hgoal⟩ :=
    hmore.passes_goal (Client.callsLeft v) _ hzero hstep hround hstart
  exact ⟨pre, m, hpre, hm, hgoal⟩

/-- **The round ends under every schedule** that lets the RTP thread act often enough, five times
    for each packet and twice for each source: at some moment the table is unlocked, and all that
    was received is in the file. -/
theorem ClientRun.roundEnds (hlib : P.lib.Documented v) (hrun : ClientRun P w tr c)
    (hrtp : c.rtp = some (.recvPackets port f))
    (hmore : Run (fun c a c' => ∃ turn, clientStep P w c turn = some (a, c')) c tr' c')
    (hcount : 5 * (unread v f).length + 2 * (v.sources f.session).length + 7 ≤
      tr'.countP (·.owner = .rtpHandler)) :
    (∃ steps, Opens P v w tr f steps) ∧
    ∀ steps, Opens P v w tr f steps →
      (∀ packet ∈ received steps, 4 ≤ packet.payload.bytes.length) →
      ∃ pre, pre <+: tr' ∧ ¬ Locked (recvCalls (tr ++ pre)) ∧
        delivered (recvCalls (tr ++ pre)) = received steps ∧
        fileAfter (recvCalls (tr ++ pre)) = some ((received steps).flatMap RTPPacket.media) := by
  refine ⟨hrun.exists_opens v hrtp, ?_⟩
  intro steps hopens hlen
  obtain ⟨pre, m, hpre, ⟨-, f₁, steps₁, hf₁, ⟨⟨info, -, hsteps⟩, hcalls⟩, htables⟩, f', hf', hpc⟩ :=
    hrun.passes_loop hlib hrtp hopens hmore ((callsLeft_le f).trans hcount)
  rw [hf₁] at hf'
  cases hf'
  have hreceived : received steps₁ = received steps := congrArg (List.flatMap queued) htables
  have he : RoundEnd P.lib v (rtpHandler (P.rtpParam info)) P.session
      ((RayionClient.calls steps₁).count .beginDataAccess) steps₁ f₁ := ⟨hsteps, hpc, rfl⟩
  refine ⟨pre, hpre, ?_⟩
  rw [← hcalls, ← hreceived]
  exact ⟨he.not_locked, he.delivered_eq hlib, he.fileAfter_eq hlib (by rwa [hreceived])⟩

end

/-- The rest of the first round. -/
theorem roundEnds_receiving : ∃ tr c tr' c', ClientRun receivingPlatform liveURI tr c ∧
    Run (fun c a c' => ∃ turn, clientStep receivingPlatform liveURI c turn = some (a, c'))
      c tr' c' ∧
    ∃ pre, pre <+: tr' ∧ ¬ Locked (recvCalls (tr ++ pre)) ∧
      delivered (recvCalls (tr ++ pre)) = queued (twoPolls 0 []) ∧
      fileAfter (recvCalls (tr ++ pre)) = some [65, 66, 67, 68] := by
  obtain ⟨info, tr, c, hrun, hparam, hrtp, hopens⟩ := exists_receiving 11
  have hlib : receivingPlatform.lib.Documented SourceTable.view := twoPollSession_documented
  have hmore := clientRun_of_recvRun (w := liveURI) hrtp hparam
    (run_runFor (recvStep receivingPlatform.lib (rtpHandler (receivingPlatform.rtpParam info))) _
      18)
  have hreceived : received (receiving info 11).1 = queued (twoPolls 0 []) := rfl
  have hlen : ∀ packet ∈ received (receiving info 11).1, 4 ≤ packet.payload.bytes.length := by
    rw [hreceived]; decide
  obtain ⟨pre, hpre, hlock, hd, hfile⟩ :=
    (ClientRun.roundEnds hlib hrun hrtp hmore (Nat.le_of_eq rfl)).2 _ hopens hlen
  rw [hreceived] at hd hfile
  exact ⟨tr, c, _, _, hrun, hmore, pre, hpre, hlock, hd, hfile⟩

end RayionClient
