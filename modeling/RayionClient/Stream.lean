/-
  The buffer file is the received stream.

  * `Receiver.file_eq`: what a receiver has written is what was delivered to it,
    without the first four bytes of each payload.
  * `Flow`: what was delivered and what is still queued make up the tables that the
    data accesses have opened, for any session as documented (`Flow.step`).
  * Every round ends (`exists_roundEnd`), and then nothing is queued
    (`recvPackets_stream`).
-/
import RayionClient.DataAccess

namespace RayionClient

open Base

/-! ## The file -/

/-- The bytes that `WriteFile` is asked to append; unknown outside of the object. -/
def requested (buf : CharPtr) (count : UInt32) : Option (List UInt8) :=
  match buf with
  | .buf offset =>
    if offset + count.toNat ≤ bufSize then some (List.replicate count.toNat 0) else none
  | .payload packet offset =>
    if offset + count.toNat ≤ packet.payload.length then
      some ((packet.payload.drop offset).take count.toNat)
    else none

/-- What a call makes of the content of the file: `CREATE_ALWAYS` empties it, and `WriteFile`
    appends all bytes requested. -/
def fileStep (file : Option (List UInt8)) : Call → Option (List UInt8)
  | .createFile => some []
  | .writeFile buf count => do return (← file) ++ (← requested buf count)
  | _ => file

/-- The content of the file after a trace. -/
def fileAfter (tr : List Call) : Option (List UInt8) := tr.foldl fileStep none

/-- The packets that `GetNextPacket` has returned. -/
def delivered (tr : List Call) : List RTPPacket := tr.filterMap fun
  | .getNextPacket (some p) => some p.packet
  | _ => none

/-- A payload without its first four bytes. -/
def RTPPacket.media (packet : RTPPacket) : List UInt8 := packet.payload.bytes.drop 4

@[simp] theorem delivered_append (tr tr' : List Call) :
    delivered (tr ++ tr') = delivered tr ++ delivered tr' := List.filterMap_append

theorem fileAfter_append (tr tr' : List Call) :
    fileAfter (tr ++ tr') = tr'.foldl fileStep (fileAfter tr) := List.foldl_append

theorem delivered_of_not_endsUse {call : Call} (h : ¬ call.EndsUse) : delivered [call] = [] := by
  cases call with
  | getNextPacket packet => exact absurd trivial h
  | _ => rfl

/-- Using up a packet appends its payload from the fifth byte on. -/
theorem foldl_use {p : Packet} (h : 4 ≤ p.payload.length) (file : List UInt8) :
    p.use.foldl fileStep (some file) = some (file ++ p.packet.media) := by
  have hcount : (p.getPayloadLength - 4).toNat = p.payload.length - 4 := by
    have h4 : (4 : UInt32) ≤ p.getPayloadLength := by
      rw [UInt32.le_iff_toNat_le, p.getPayloadLength_toNat]; exact h
    rw [UInt32.toNat_sub_of_le _ _ h4, p.getPayloadLength_toNat]; rfl
  have hreq : requested (.payload p 4) (p.getPayloadLength - 4) = some p.packet.media := by
    rw [requested, hcount, if_pos (by omega), List.take_of_length_le (by simp)]; rfl
  simp only [Packet.use, List.foldl_cons, List.foldl_nil, fileStep, hreq]
  rfl

namespace Receiver

/-- The file is complete when the receiver has done what it owes. -/
def FileInv (tr : List Call) : Receiver → Prop
  | starting => delivered tr = []
  | c => fileAfter (tr ++ c.todo) = some ((delivered tr).flatMap RTPPacket.media)

variable {tr : List Call} {c : Receiver}

/-- **What a receiver writes is what was delivered to it.** -/
theorem file_eq (h : Run Step starting tr c)
    (hlen : ∀ packet ∈ delivered tr, 4 ≤ packet.payload.bytes.length) : FileInv tr c := by
  induction h with
  | start => rfl
  | @snoc tr c c' call h hs ih =>
    rw [delivered_append] at hlen
    have hI := ih fun packet hp => hlen packet (List.mem_append_left _ hp)
    cases hs with
    | packet p =>
      have hp : 4 ≤ p.payload.length :=
        hlen p.packet (List.mem_append_right _ (List.mem_singleton.2 rfl))
      have hfile : fileAfter tr = some ((delivered tr).flatMap RTPPacket.media) := by
        simpa only [FileInv, todo, List.append_nil] using hI
      have hstep : fileAfter (tr ++ [.getNextPacket (some p)]) = fileAfter tr := by
        rw [fileAfter_append]; rfl
      change fileAfter (tr ++ [_] ++ p.use) = _
      rw [fileAfter_append, hstep, hfile, foldl_use hp, delivered_append, List.flatMap_append]
      rw [show delivered [.getNextPacket (some p)] = [p.packet] from rfl, List.flatMap_singleton]
    | work n call todo' =>
      have hd := delivered_of_not_endsUse ((inv h).owed call (by simp [todo])).2.2
      change fileAfter (tr ++ [call] ++ todo') = _
      rw [delivered_append, hd, List.append_nil, List.append_assoc]
      exact hI
    | createFile =>
      have hd : delivered tr = [] := hI
      change fileAfter (tr ++ [.createFile] ++ []) = _
      rw [List.append_nil, fileAfter_append, delivered_append, hd]; rfl
    | addDestination addr | starttime t =>
      change delivered (tr ++ [_]) = []
      rw [delivered_append, show delivered tr = [] from hI]; rfl
    | _ =>
      -- the call neither writes nor delivers
      have hfile : fileAfter tr = some ((delivered tr).flatMap RTPPacket.media) := by
        simpa only [FileInv, todo, List.append_nil] using hI
      change fileAfter (tr ++ [_] ++ []) = _
      rw [List.append_nil, fileAfter_append, delivered_append, hfile]
      simp only [List.foldl_cons, List.foldl_nil, fileStep]
      simp [delivered]

end Receiver

/-! ## The tables of a run -/

section
variable {σ : Type} (lib : RTPSession σ) (v : SessionView σ) (h : RTPHandler) (session : σ)

/-- The table that a call opens, after which the session is in state `s`. -/
def opened (call : Call) (s : σ) : List (List RTPSourceData) :=
  if call = .beginDataAccess then [v.sources s] else []

/-- One call of `recvPackets`, together with the table that it opens. -/
def tableStep (f : Frame σ) : Option ((Call × List (List RTPSourceData)) × Frame σ) :=
  (recvStep lib h f).map fun (call, f') => ((call, opened v call f'.session), f')

/-- The runs of `recvPackets`, together with the tables that they open. -/
abbrev TableRun : List (Call × List (List RTPSourceData)) → Frame σ → Prop :=
  Run (fun f step f' => tableStep lib v h f = some (step, f')) (.entry session)

end

/-- The calls of such a run. -/
def calls (steps : List (Call × List (List RTPSourceData))) : List Call := steps.map Prod.fst

/-- The tables at the beginning of its data accesses, in this order. -/
def tables (steps : List (Call × List (List RTPSourceData))) : List (List RTPSourceData) :=
  steps.flatMap Prod.snd

/-- The packets received, up to a moment: rounds in order, sources in the order of the table,
    packets in the order of the queue. -/
def received (steps : List (Call × List (List RTPSourceData))) : List RTPPacket :=
  (tables steps).flatMap queued

section
variable {σ : Type} {lib : RTPSession σ} {v : SessionView σ} {h : RTPHandler} {session : σ}
  {steps : List (Call × List (List RTPSourceData))} {f f' : Frame σ}

theorem calls_concat (step : Call × List (List RTPSourceData)) :
    calls (steps ++ [step]) = calls steps ++ [step.1] := List.map_append

theorem tables_concat (step : Call × List (List RTPSourceData)) :
    tables (steps ++ [step]) = tables steps ++ step.2 := by
  rw [tables, List.flatMap_append, List.flatMap_singleton]; rfl

theorem tableStep_eq_some {step : Call × List (List RTPSourceData)} :
    tableStep lib v h f = some (step, f') ↔
      recvStep lib h f = some (step.1, f') ∧ step.2 = opened v step.1 f'.session := by
  rw [tableStep, Option.map_eq_some_iff]
  constructor
  · rintro ⟨⟨call, f''⟩, hs, heq⟩
    cases heq
    exact ⟨hs, rfl⟩
  · rintro ⟨hs, hopened⟩
    exact ⟨_, hs, Prod.ext (Prod.ext rfl hopened.symm) rfl⟩

/-- Every call of `recvPackets` opens its tables. -/
theorem tableStep_recvStep {call : Call} (hs : recvStep lib h f = some (call, f')) :
    tableStep lib v h f = some ((call, opened v call f'.session), f') :=
  tableStep_eq_some.2 ⟨hs, rfl⟩

theorem TableRun.recvRun (hrun : TableRun lib v h session steps f) :
    RecvRun lib h session (calls steps) f := by
  induction hrun with
  | start => exact .start
  | snoc hrun hs ih =>
    rw [calls_concat]
    exact ih.snoc (tableStep_eq_some.1 hs).1

/-- Every run of `recvPackets` opens tables. -/
theorem RecvRun.exists_tableRun {tr : List Call} (hrun : RecvRun lib h session tr f) :
    ∃ steps, TableRun lib v h session steps f ∧ calls steps = tr := by
  induction hrun with
  | start => exact ⟨[], .start, rfl⟩
  | @snoc tr f f' call hrun hs ih =>
    obtain ⟨steps, hsteps, rfl⟩ := ih
    exact ⟨_, hsteps.snoc (tableStep_recvStep hs), calls_concat _⟩

end

/-! ## The loops -/

section
variable {σ : Type} (v : SessionView σ)

/-- The packets still queued in the table that is open. -/
def unread (f : Frame σ) : List RTPPacket :=
  match f.pc with
  | .gotoFirst | .getNextPacket | .getPayloadData | .getPayloadLength | .writeFile
  | .deletePacket | .gotoNext | .endDataAccess => queued (v.sources f.session)
  | _ => []

/-- Which sources the loops have gone through. -/
def Cursor (f : Frame σ) : Prop :=
  match f.pc with
  | .gotoFirst => v.access f.session
  | .getNextPacket | .getPayloadData | .getPayloadLength | .writeFile | .deletePacket =>
    v.access f.session ∧ DrainedTo (v.current f.session) (v.sources f.session) ∧
      v.current f.session < (v.sources f.session).length
  | .gotoNext =>
    v.access f.session ∧ DrainedTo (v.current f.session + 1) (v.sources f.session) ∧
      v.current f.session < (v.sources f.session).length
  | .endDataAccess => queued (v.sources f.session) = []
  | _ => True

/-- **The invariant of the loops.** -/
structure Flow (steps : List (Call × List (List RTPSourceData))) (f : Frame σ) : Prop where
  begun : (tables steps).length = (calls steps).count .beginDataAccess
  balance : delivered (calls steps) ++ unread v f = received steps
  cursor : Cursor v f

/-- A bound for the calls left in a round. -/
def callsLeft (f : Frame σ) : ℕ :=
  let packets := 5 * (unread v f).length
  let sources := 2 * ((v.sources f.session).length - v.current f.session)
  match f.pc with
  | .addDestination => 3
  | .starttime => 2
  | .createFile => 1
  | .loop => 0
  | .gotoFirst => packets + 2 * (v.sources f.session).length + 4
  | .getPayloadData => packets + sources + 7
  | .getPayloadLength => packets + sources + 6
  | .writeFile => packets + sources + 5
  | .deletePacket => packets + sources + 4
  | .getNextPacket => packets + sources + 3
  | .gotoNext => packets + sources + 2
  | .endDataAccess => 2
  | .currentTime => 1
  | .returned => 0

end

section
variable {σ : Type} {lib : RTPSession σ} {v : SessionView σ} {h : RTPHandler}
  {steps : List (Call × List (List RTPSourceData))} {f f' : Frame σ} {call : Call}

theorem flow_entry (session : σ) : Flow v [] (Frame.entry session) := ⟨rfl, rfl, trivial⟩

/-- A call that neither begins a round nor delivers. -/
theorem Flow.quiet (hf : Flow v steps f) (hb : call ≠ .beginDataAccess)
    (hd : delivered [call] = []) (hu : unread v f' = unread v f) (hc : Cursor v f') :
    Flow v (steps ++ [(call, opened v call f'.session)]) f' := by
  have hopened : opened v call f'.session = [] := if_neg hb
  refine ⟨?_, ?_, hc⟩
  · rw [tables_concat, calls_concat, hopened, List.append_nil, List.count_append,
      List.count_singleton, if_neg (by simpa using hb), hf.begun, Nat.add_zero]
  · rw [received, tables_concat, calls_concat, hopened, List.append_nil, delivered_append, hd,
      List.append_nil, hu]
    exact hf.balance

/-- A new round: the table that is now open is to be read. -/
theorem Flow.begin (hlib : lib.Documented v) (hf : Flow v steps f) (hpc : f.pc = .loop) :
    Flow v (steps ++ [(.beginDataAccess,
        opened v .beginDataAccess (lib.beginDataAccess f.session))])
      { f with session := lib.beginDataAccess f.session, pc := .gotoFirst } := by
  have hbalance := hf.balance
  rw [unread, hpc, List.append_nil] at hbalance
  have hopened : opened v .beginDataAccess (lib.beginDataAccess f.session) =
      [v.sources (lib.beginDataAccess f.session)] := if_pos rfl
  refine ⟨?_, ?_, hlib.beginDataAccess f.session⟩
  · rw [tables_concat, calls_concat, hopened, List.count_append, List.count_singleton_self,
      List.length_append, hf.begun]
    rfl
  · rw [received, tables_concat, calls_concat, hopened, List.flatMap_append, delivered_append,
      List.flatMap_singleton, show delivered [Call.beginDataAccess] = [] from rfl,
      List.append_nil, hbalance]
    rfl

/-- Going on to a source with data, from position `k` on, when all before it are drained. -/
theorem Flow.goto (hf : Flow v steps f) {k : ℕ} {found : Bool}
    (hk : DrainedTo k (v.sources f.session)) (hg : v.Goes k f.session found f'.session)
    (hunread : unread v f = queued (v.sources f.session))
    (hcall : call = .gotoFirstSourceWithData found ∨ call = .gotoNextSourceWithData found)
    (hpc : f'.pc = if found then .getNextPacket else .endDataAccess) :
    Flow v (steps ++ [(call, opened v call f'.session)]) f' ∧
      callsLeft v f' ≤ 5 * (unread v f).length + 2 * ((v.sources f.session).length - k) + 3 := by
  have hb : call ≠ .beginDataAccess := by rcases hcall with rfl | rfl <;> simp
  have hd : delivered [call] = [] := by rcases hcall with rfl | rfl <;> rfl
  have hu : unread v f' = unread v f := by
    rw [hunread, ← hg.sources, unread, hpc]
    cases found <;> rfl
  cases found with
  | true =>
    simp only [if_true] at hpc
    obtain ⟨hdrained, hlt⟩ := hg.drainedTo hk
    have hle := (hg.arrived rfl).1
    refine ⟨hf.quiet hb hd hu ?_, ?_⟩
    · rw [Cursor, hpc]; exact ⟨hg.access, hdrained, hlt⟩
    · simp only [callsLeft, hpc, hu, hg.sources]; omega
  | false =>
    simp only [Bool.false_eq_true, if_false] at hpc
    refine ⟨hf.quiet hb hd hu ?_, ?_⟩
    · rw [Cursor, hpc]; exact hg.queued_eq_nil hk
    · simp only [callsLeft, hpc]; omega

/-- A packet goes from the queue of the current source to the program. -/
theorem Flow.take (hf : Flow v steps f) {p : Packet} {source : RTPSourceData}
    (hpc : f.pc = .getNextPacket) (hpc' : f'.pc = .getPayloadData)
    (hk : DrainedTo (v.current f.session) (v.sources f.session))
    (hsource : (v.sources f.session)[v.current f.session]? = some source)
    (ht : v.Takes source f.session (some p.packet) f'.session) :
    Flow v (steps ++ [(.getNextPacket (some p), opened v (.getNextPacket (some p)) f'.session)])
        f' ∧ callsLeft v f' < callsLeft v f := by
  have hq := ht.queued_eq hk hsource
  have hu : unread v f = p.packet :: unread v f' := by
    simp only [unread, hpc, hpc']; exact hq
  have hlt := (List.getElem?_eq_some_iff.1 hsource).1
  have hopened : opened v (.getNextPacket (some p)) f'.session = [] := if_neg (by simp)
  refine ⟨⟨?_, ?_, ?_⟩, ?_⟩
  · rw [tables_concat, calls_concat, hopened, List.append_nil, List.count_append, hf.begun]
    rfl
  · have hbalance := hf.balance
    rw [hu] at hbalance
    rw [received, tables_concat, calls_concat, hopened, List.append_nil, delivered_append,
      List.append_assoc]
    exact hbalance
  · rw [Cursor, hpc']
    exact ⟨ht.access, ht.drainedTo hk, by rw [ht.current, ht.length_eq]; exact hlt⟩
  · simp only [callsLeft, hpc, hpc', hu, ht.current, ht.length_eq, List.length_cons]
    omega

/-- **One call of `recvPackets` keeps the balance**, and brings the end of the round nearer. -/
theorem Flow.step (hlib : lib.Documented v) (hf : Flow v steps f)
    (hs : recvStep lib h f = some (call, f')) :
    Flow v (steps ++ [(call, opened v call f'.session)]) f' ∧
      (f.pc = .loop ∨ call ≠ .beginDataAccess ∧ callsLeft v f' < callsLeft v f) := by
  have hcur := hf.cursor
  rw [recvStep] at hs
  unfold Cursor at hcur
  cases hpc : f.pc with
  | addDestination | starttime | createFile =>
    simp only [hpc] at hs hcur
    cases hs
    refine ⟨hf.quiet (by simp) rfl (by simp [unread, hpc]) trivial, Or.inr ⟨by simp, ?_⟩⟩
    simp [callsLeft, hpc]
  | loop =>
    simp only [hpc] at hs
    refine ⟨?_, Or.inl rfl⟩
    split_ifs at hs with hdone
    · cases hs
      exact hf.quiet (by simp) rfl (by simp [unread, hpc]) trivial
    · cases hs
      exact hf.begin hlib hpc
  | gotoFirst =>
    simp only [hpc] at hs hcur
    have hgoes := hlib.gotoFirstSourceWithData f.session hcur
    obtain ⟨hcall, hf'⟩ := Prod.mk.inj (Option.some.inj hs)
    have hsession : f'.session = (lib.gotoFirstSourceWithData f.session).2 := by rw [← hf']
    rw [← hsession] at hgoes
    obtain ⟨hflow, hle⟩ := hf.goto (drainedTo_zero _) hgoes (by simp [unread, hpc])
      (Or.inl hcall.symm) (by rw [← hf'])
    refine ⟨hflow, Or.inr ⟨by simp [← hcall], lt_of_le_of_lt hle ?_⟩⟩
    simp only [callsLeft, hpc]; omega
  | getNextPacket =>
    simp only [hpc] at hs hcur
    obtain ⟨haccess, hk, hlt⟩ := hcur
    obtain ⟨source, hsource⟩ : ∃ source,
        (v.sources f.session)[v.current f.session]? = some source :=
      ⟨_, List.getElem?_eq_getElem hlt⟩
    have htakes := hlib.getNextPacket f.session source haccess hsource
    split at hs
    · rename_i packet session hg
      obtain ⟨rfl, hf'⟩ := Prod.mk.inj (Option.some.inj hs)
      have hsession : f'.session = session := by rw [← hf']
      rw [hg, ← hsession] at htakes
      obtain ⟨hflow, hlt'⟩ := hf.take (p := ⟨f.received, packet⟩) hpc (by rw [← hf']) hk hsource
        htakes
      exact ⟨hflow, Or.inr ⟨by simp, hlt'⟩⟩
    · rename_i session hg
      obtain ⟨rfl, hf'⟩ := Prod.mk.inj (Option.some.inj hs)
      have hsession : f'.session = session := by rw [← hf']
      have hpc' : f'.pc = .gotoNext := by rw [← hf']
      rw [hg, ← hsession] at htakes
      obtain ⟨hsources, hk'⟩ := htakes.drained hk hsource
      have hu : unread v f' = unread v f := by simp only [unread, hpc, hpc', hsources]
      refine ⟨hf.quiet (by simp) rfl hu ?_, Or.inr ⟨by simp, ?_⟩⟩
      · rw [Cursor, hpc']
        exact ⟨htakes.access, hk', by rw [htakes.current, htakes.length_eq]; exact hlt⟩
      · simp only [callsLeft, hpc, hpc', hu, htakes.current, htakes.length_eq]; omega
  | getPayloadData | getPayloadLength =>
    simp only [hpc] at hs hcur
    obtain ⟨packet, -, hs⟩ := Option.bind_eq_some_iff.1 hs
    cases hs
    refine ⟨hf.quiet (by simp) rfl (by simp [unread, hpc]) hcur, Or.inr ⟨by simp, ?_⟩⟩
    simp [callsLeft, unread, hpc]
  | writeFile =>
    simp only [hpc] at hs hcur
    obtain ⟨recvdata, -, hs⟩ := Option.bind_eq_some_iff.1 hs
    obtain ⟨length, -, hs⟩ := Option.bind_eq_some_iff.1 hs
    cases hs
    refine ⟨hf.quiet (by simp [payloadWrite]) rfl (by simp [unread, hpc]) hcur,
      Or.inr ⟨by simp [payloadWrite], ?_⟩⟩
    simp [callsLeft, unread, hpc]
  | deletePacket =>
    simp only [hpc] at hs hcur
    obtain ⟨haccess, hk, hlt⟩ := hcur
    obtain ⟨packet, -, hs⟩ := Option.bind_eq_some_iff.1 hs
    have hkeeps := hlib.deletePacket packet f.session haccess
    cases hs
    refine ⟨hf.quiet (by simp) rfl (by simp [unread, hpc, hkeeps.sources]) ?_,
      Or.inr ⟨by simp, ?_⟩⟩
    · simp only [Cursor, hkeeps.sources, hkeeps.current]
      exact ⟨hkeeps.access, hk, hlt⟩
    · simp [callsLeft, unread, hpc, hkeeps.sources, hkeeps.current]
  | gotoNext =>
    simp only [hpc] at hs hcur
    obtain ⟨haccess, hk, hlt⟩ := hcur
    have hgoes := hlib.gotoNextSourceWithData f.session haccess hlt
    obtain ⟨hcall, hf'⟩ := Prod.mk.inj (Option.some.inj hs)
    have hsession : f'.session = (lib.gotoNextSourceWithData f.session).2 := by rw [← hf']
    rw [← hsession] at hgoes
    obtain ⟨hflow, hle⟩ := hf.goto hk hgoes (by simp [unread, hpc]) (Or.inr hcall.symm)
      (by rw [← hf'])
    refine ⟨hflow, Or.inr ⟨by simp [← hcall], lt_of_le_of_lt hle ?_⟩⟩
    simp only [callsLeft, hpc]; omega
  | endDataAccess =>
    simp only [hpc] at hs hcur
    cases hs
    refine ⟨hf.quiet (by simp) rfl ?_ trivial, Or.inr ⟨by simp, by simp [callsLeft, hpc]⟩⟩
    simp only [unread, hpc, hcur]
  | currentTime =>
    simp only [hpc] at hs
    obtain ⟨starttime, -, hs⟩ := Option.bind_eq_some_iff.1 hs
    cases hs
    refine ⟨hf.quiet (by simp) rfl (by simp [unread, hpc]) trivial, Or.inr ⟨by simp, ?_⟩⟩
    simp [callsLeft, hpc]
  | returned =>
    simp only [hpc] at hs
    cases hs

end

/-! ## Rounds -/

section
variable {σ : Type} (lib : RTPSession σ) (v : SessionView σ) (h : RTPHandler) (session : σ)

/-- The end of a round: `n` data accesses have begun, and the test of the loop is next. -/
def RoundEnd (n : ℕ) (steps : List (Call × List (List RTPSourceData))) (f : Frame σ) : Prop :=
  TableRun lib v h session steps f ∧ f.pc = .loop ∧ (calls steps).count .beginDataAccess = n

variable {lib v h session} {steps : List (Call × List (List RTPSourceData))} {f : Frame σ}

theorem TableRun.flow (hlib : lib.Documented v) (hrun : TableRun lib v h session steps f) :
    Flow v steps f := by
  refine hrun.inv (flow_entry session) ?_
  rintro steps f ⟨call, table⟩ f' hf hs
  obtain ⟨hs, hopened⟩ := tableStep_eq_some.1 hs
  obtain rfl : table = opened v call f'.session := hopened
  exact (hf.step hlib hs).1

/-- The loop comes back to its test, in the same round. -/
theorem TableRun.reaches_loop (hlib : lib.Documented v)
    (hrun : TableRun lib v h session steps f) {n : ℕ}
    (hn : (calls steps).count .beginDataAccess = n) :
    ∃ steps' f', RoundEnd lib v h session n steps' f' := by
  have hstep : ∀ g : Frame σ, (∃ steps, TableRun lib v h session steps g ∧
      (calls steps).count .beginDataAccess = n) → ¬ g.pc = .loop →
      ∃ g' : Frame σ, (∃ steps, TableRun lib v h session steps g' ∧
        (calls steps).count .beginDataAccess = n) ∧ callsLeft v g' < callsLeft v g := by
    rintro g ⟨steps, hg, hn⟩ hpc
    obtain ⟨c, -, ht⟩ := RecvRun.receiver hg.recvRun
    obtain ⟨call, g', hs⟩ : ∃ call g', recvStep lib h g = some (call, g') := ht.exists_step
    obtain ⟨hne, hlt⟩ := ((TableRun.flow hlib hg).step hlib hs).2.resolve_left hpc
    have hs' := tableStep_recvStep (v := v) hs
    refine ⟨g', ⟨_, hg.snoc hs', ?_⟩, hlt⟩
    rw [calls_concat, List.count_append, List.count_singleton, if_neg (by simpa using hne),
      Nat.add_zero, hn]
  obtain ⟨f', ⟨steps', hrun', hn'⟩, hpc⟩ := reaches_goal (callsLeft v) hstep ⟨steps, hrun, hn⟩
  exact ⟨steps', f', hrun', hpc, hn'⟩

/-- **Every round ends.** -/
theorem exists_roundEnd (hlib : lib.Documented v) (h : RTPHandler) (session : σ) (n : ℕ) :
    ∃ steps f, RoundEnd lib v h session n steps f := by
  induction n with
  | zero =>
    have hstart : TableRun lib v h session [] (Frame.entry session) := .start
    exact hstart.reaches_loop hlib rfl
  | succ n ih =>
    obtain ⟨steps, f, hrun, hpc, hn⟩ := ih
    obtain ⟨c, -, ht⟩ := RecvRun.receiver hrun.recvRun
    have hs : recvStep lib h f = some (.beginDataAccess, { f with
        session := lib.beginDataAccess f.session, pc := .gotoFirst }) := by
      rw [recvStep, hpc]; simp [ht.running]
    refine TableRun.reaches_loop hlib (hrun.snoc (tableStep_recvStep hs)) ?_
    rw [calls_concat, List.count_append, hn]; rfl

/-- All packets have been taken when a round ends. -/
theorem RoundEnd.delivered_eq (hlib : lib.Documented v) {n : ℕ}
    (he : RoundEnd lib v h session n steps f) : delivered (calls steps) = received steps := by
  obtain ⟨hrun, hpc, -⟩ := he
  have hbalance := (TableRun.flow hlib hrun).balance
  rwa [unread, hpc, List.append_nil] at hbalance

theorem RoundEnd.fileAfter_eq (hlib : lib.Documented v) {n : ℕ}
    (he : RoundEnd lib v h session n steps f)
    (hlen : ∀ packet ∈ received steps, 4 ≤ packet.payload.bytes.length) :
    fileAfter (calls steps) = some ((received steps).flatMap RTPPacket.media) := by
  have hd := he.delivered_eq hlib
  obtain ⟨hrun, hpc, -⟩ := he
  obtain ⟨c, hc, ht⟩ := RecvRun.receiver hrun.recvRun
  have hstate := ht.state
  rw [hpc] at hstate
  obtain rfl : c = .outside f.received := hstate
  have hfile := Receiver.file_eq hc (by rwa [hd])
  simpa only [Receiver.FileInv, Receiver.todo, List.append_nil, hd] using hfile

/-- The packets of one source, in the order of its queue. -/
theorem queued_filter (ssrc : UInt32) (sources : List RTPSourceData) :
    (queued sources).filter (·.ssrc = ssrc) = queued (sources.filter (·.ssrc = ssrc)) := by
  induction sources with
  | nil => rfl
  | cons source sources ih =>
    rw [queued_cons, List.filter_append, ih, List.filter_cons]
    by_cases hs : source.ssrc = ssrc
    · have hall : source.packets.filter (·.ssrc = ssrc) = source.packets := by
        refine List.filter_eq_self.2 ?_
        intro packet hp
        rw [RTPSourceData.ssrc_of_mem hp]
        simpa using hs
      rw [hall, if_pos (by simpa using hs), queued_cons]
    · have hnone : source.packets.filter (·.ssrc = ssrc) = [] := by
        refine List.filter_eq_nil_iff.2 ?_
        intro packet hp
        rw [RTPSourceData.ssrc_of_mem hp]
        simpa using hs
      rw [hnone, if_neg (by simpa using hs)]
      rfl

/-- **The buffer file is exactly the received stream**, for any session as documented: every
    round ends, and then the file holds what was in the tables. -/
theorem recvPackets_stream (hlib : lib.Documented v) (h : RTPHandler) (session : σ) (n : ℕ) :
    (∃ steps f, RoundEnd lib v h session n steps f) ∧
      ∀ steps f, RoundEnd lib v h session n steps f →
        (∀ table ∈ tables steps, ∀ packet ∈ queued table, 4 ≤ packet.payload.bytes.length) →
        (tables steps).length = n ∧
        delivered (calls steps) = (tables steps).flatMap queued ∧
        fileAfter (calls steps) =
          some (((tables steps).flatMap queued).flatMap RTPPacket.media) ∧
        ∀ ssrc, (delivered (calls steps)).filter (·.ssrc = ssrc) =
          (tables steps).flatMap fun table => queued (table.filter (·.ssrc = ssrc)) := by
  refine ⟨exists_roundEnd hlib h session n, ?_⟩
  intro steps f he hlen
  have hd := he.delivered_eq hlib
  refine ⟨?_, hd, he.fileAfter_eq hlib ?_, ?_⟩
  · rw [(TableRun.flow hlib he.1).begun]
    exact he.2.2
  · intro packet hp
    obtain ⟨table, htable, hpacket⟩ := List.mem_flatMap.1 hp
    exact hlen table htable packet hpacket
  · intro ssrc
    rw [hd, received, List.filter_flatMap]
    exact List.flatMap_congr fun table _ => queued_filter ssrc table

end

/-! ## Both rounds of a run -/

theorem twoPollSession_documented : twoPollSession.Documented SourceTable.view :=
  tableSession_documented ..

/-- The two rounds, with their tables. -/
def twoTables : List (Call × List (List RTPSourceData)) × Frame SourceTable :=
  runFor (tableStep twoPollSession SourceTable.view (initRTPHandler ![192, 168, 1, 115] 55778)) 37
    (Frame.entry ⟨[], 0, 0, 0⟩)

/-- Three packets of two sources in the first round, and one of four bytes in the second. -/
theorem recvPackets_stream_twoPolls :
    RoundEnd twoPollSession SourceTable.view (initRTPHandler ![192, 168, 1, 115] 55778)
        ⟨[], 0, 0, 0⟩ 2 twoTables.1 twoTables.2 ∧
      tables twoTables.1 = [twoPolls 0 [], twoPolls 1 []] ∧
      delivered (calls twoTables.1) = queued (twoPolls 0 []) ++ queued (twoPolls 1 []) ∧
      fileAfter (calls twoTables.1) = some [65, 66, 67, 68] := by
  have he : RoundEnd twoPollSession SourceTable.view (initRTPHandler ![192, 168, 1, 115] 55778)
      ⟨[], 0, 0, 0⟩ 2 twoTables.1 twoTables.2 :=
    ⟨run_runFor _ _ 37, by decide, by decide⟩
  have htables : tables twoTables.1 = [twoPolls 0 [], twoPolls 1 []] := by decide
  have hlen : ∀ table ∈ tables twoTables.1, ∀ packet ∈ queued table,
      4 ≤ packet.payload.bytes.length := by
    rw [htables]; decide
  obtain ⟨-, hd, hfile, -⟩ := (recvPackets_stream twoPollSession_documented _ _ 2).2 _ _ he hlen
  rw [htables] at hd hfile
  refine ⟨he, htables, ?_, hfile⟩
  rw [hd]; rfl

end RayionClient
