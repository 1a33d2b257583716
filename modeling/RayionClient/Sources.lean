/-
  What jrtplib promises about its source table.

  A source keeps a queue of received packets (rtpsourcedata.h).  The session that
  `recvPackets` uses is any `RTPSession`; `Documented` says of it what the comments of
  rtpsession.h say: while a data access is going on, the two `Goto` methods move to the
  next source with data, and `GetNextPacket` takes the next packet of the current source.
  Between two data accesses the poll thread may change the table in any way.

  `tableSession` is one session that keeps the promises (`tableSession_documented`), for
  runs on fixed inputs.
-/
import RayionClient.RTPHandler

namespace RayionClient

open Base

/-! ## Sources -/

/-- A source, as far as its received packets are concerned. -/
structure RTPSourceData where
  ssrc : UInt32
  validated : Bool
  packetlist : List Payload
  deriving DecidableEq

namespace RTPSourceData
variable (source : RTPSourceData)

/-- `HasData`. -/
def hasData : Bool :=
  if !source.validated then false else if source.packetlist.isEmpty then false else true

/-- `GetNextPacket`: the packet, and the source without it. -/
def getNextPacket : Option RTPPacket × RTPSourceData :=
  if !source.validated then (none, source)
  else match source.packetlist with
    | [] => (none, source)
    | p :: packetlist => (some ⟨source.ssrc, p⟩, { source with packetlist := packetlist })

/-- The packets that have not been extracted yet. -/
def packets : List RTPPacket :=
  if source.validated then source.packetlist.map (RTPPacket.mk source.ssrc) else []

variable {source}

theorem hasData_eq_false_iff : source.hasData = false ↔ source.packets = [] := by
  obtain ⟨ssrc, validated, packetlist⟩ := source
  cases validated <;> cases packetlist <;> simp [hasData, packets]

/-- `GetNextPacket` takes the first packet, if there is one. -/
theorem getNextPacket_cases :
    source.getNextPacket = (none, source) ∧ source.packets = [] ∨
      ∃ packet source', source.getNextPacket = (some packet, source') ∧
        source.packets = packet :: source'.packets := by
  obtain ⟨ssrc, validated, packetlist⟩ := source
  cases validated with
  | false => exact Or.inl ⟨rfl, rfl⟩
  | true =>
    cases packetlist with
    | nil => exact Or.inl ⟨rfl, rfl⟩
    | cons p packetlist => exact Or.inr ⟨_, _, rfl, rfl⟩

/-- The packets of a source have its number. -/
theorem ssrc_of_mem {packet : RTPPacket} (h : packet ∈ source.packets) :
    packet.ssrc = source.ssrc := by
  rw [packets] at h
  split_ifs at h
  · obtain ⟨p, -, rfl⟩ := List.mem_map.1 h
    rfl
  · cases h

end RTPSourceData

/-- The packets in the table, in the order of the sources and of their queues. -/
def queued (sources : List RTPSourceData) : List RTPPacket :=
  sources.flatMap RTPSourceData.packets

/-! ## Sessions -/

/-- Where the states of a session have the source table: whether a data access is going on, the
    sources, and the position of the current one. -/
structure SessionView (σ : Type) where
  access : σ → Prop
  sources : σ → List RTPSourceData
  current : σ → ℕ

namespace SessionView
variable {σ : Type} (v : SessionView σ)

/-- The move to the next source with data from position `k` on, and whether there is one. -/
structure Goes (k : ℕ) (s : σ) (found : Bool) (s' : σ) : Prop where
  access : v.access s'
  sources : v.sources s' = v.sources s
  arrived : found = true → k ≤ v.current s' ∧
    ∃ source, (v.sources s)[v.current s']? = some source ∧ source.hasData = true
  skipped : ∀ i source, k ≤ i → (found = true → i < v.current s') →
    (v.sources s)[i]? = some source → source.hasData = false

/-- The call of `GetNextPacket` on the current source. -/
structure Takes (source : RTPSourceData) (s : σ) (packet : Option RTPPacket) (s' : σ) : Prop where
  access : v.access s'
  current : v.current s' = v.current s
  packet : packet = source.getNextPacket.1
  sources : v.sources s' = (v.sources s).set (v.current s) source.getNextPacket.2

/-- The table stays what it is. -/
structure Keeps (s s' : σ) : Prop where
  access : v.access s'
  sources : v.sources s' = v.sources s
  current : v.current s' = v.current s

end SessionView

/-- **What the documentation of jrtplib says** of the methods that `recvPackets` calls, between
    `BeginDataAccess` and `EndDataAccess`. -/
structure RTPSession.Documented {σ : Type} (lib : RTPSession σ) (v : SessionView σ) : Prop where
  beginDataAccess : ∀ s, v.access (lib.beginDataAccess s)
  gotoFirstSourceWithData : ∀ s, v.access s →
    v.Goes 0 s (lib.gotoFirstSourceWithData s).1 (lib.gotoFirstSourceWithData s).2
  gotoNextSourceWithData : ∀ s, v.access s → v.current s < (v.sources s).length →
    v.Goes (v.current s + 1) s (lib.gotoNextSourceWithData s).1 (lib.gotoNextSourceWithData s).2
  getNextPacket : ∀ s source, v.access s → (v.sources s)[v.current s]? = some source →
    v.Takes source s (lib.getNextPacket s).1 (lib.getNextPacket s).2
  deletePacket : ∀ packet s, v.access s → v.Keeps s (lib.deletePacket packet s)

/-! ## Drained sources -/

/-- The first `k` sources have no packets. -/
def DrainedTo (k : ℕ) (sources : List RTPSourceData) : Prop :=
  ∀ (i : ℕ) (source : RTPSourceData), i < k → sources[i]? = some source → source.packets = []

theorem queued_cons (source : RTPSourceData) (l : List RTPSourceData) :
    queued (source :: l) = source.packets ++ queued l := List.flatMap_cons

@[simp] theorem queued_append (l l' : List RTPSourceData) :
    queued (l ++ l') = queued l ++ queued l' := List.flatMap_append

theorem drainedTo_zero (sources : List RTPSourceData) : DrainedTo 0 sources := by
  intro i source hi
  exact absurd hi (Nat.not_lt_zero i)

/-- A table is drained when all its sources are. -/
theorem queued_eq_nil {sources : List RTPSourceData}
    (h : ∀ (i : ℕ) (source : RTPSourceData), sources[i]? = some source → source.packets = []) :
    queued sources = [] := by
  refine List.flatMap_eq_nil_iff.2 ?_
  intro source hs
  obtain ⟨i, hi⟩ := List.getElem?_of_mem hs
  exact h i source hi

theorem DrainedTo.take {k : ℕ} {sources : List RTPSourceData} (h : DrainedTo k sources) :
    queued (sources.take k) = [] := by
  refine queued_eq_nil ?_
  intro i source hi
  rw [List.getElem?_take] at hi
  split_ifs at hi with hlt
  exact h i source hlt hi

namespace SessionView
variable {σ : Type} {v : SessionView σ} {s s' : σ} {k : ℕ}

/-- All before the source that has been found are drained. -/
theorem Goes.drainedTo (h : v.Goes k s true s') (hk : DrainedTo k (v.sources s)) :
    DrainedTo (v.current s') (v.sources s') ∧ v.current s' < (v.sources s').length := by
  obtain ⟨-, source, hsource, -⟩ := h.arrived rfl
  rw [h.sources]
  refine ⟨?_, (List.getElem?_eq_some_iff.1 hsource).1⟩
  intro i other hi hother
  rcases Nat.lt_or_ge i k with hlt | hge
  · exact hk i other hlt hother
  · exact RTPSourceData.hasData_eq_false_iff.1 (h.skipped i other hge (fun _ => hi) hother)

/-- If none is found, there is no packet left. -/
theorem Goes.queued_eq_nil (h : v.Goes k s false s') (hk : DrainedTo k (v.sources s)) :
    queued (v.sources s') = [] := by
  rw [h.sources]
  refine RayionClient.queued_eq_nil ?_
  intro i source hi
  rcases Nat.lt_or_ge i k with hlt | hge
  · exact hk i source hlt hi
  · refine RTPSourceData.hasData_eq_false_iff.1 (h.skipped i source hge ?_ hi)
    intro hfound
    cases hfound

theorem Takes.length_eq {source : RTPSourceData} {packet : Option RTPPacket}
    (h : v.Takes source s packet s') : (v.sources s').length = (v.sources s).length := by
  rw [h.sources, List.length_set]

/-- The sources before the current one are as before. -/
theorem Takes.drainedTo {source : RTPSourceData} {packet : Option RTPPacket}
    (h : v.Takes source s packet s') (hk : DrainedTo (v.current s) (v.sources s)) :
    DrainedTo (v.current s') (v.sources s') := by
  rw [h.sources, h.current]
  intro i other hi hother
  rw [List.getElem?_set_ne (by omega)] at hother
  exact hk i other hi hother

/-- `GetNextPacket` takes the first packet in the table, if the sources before the current one
    have none. -/
theorem Takes.queued_eq {source : RTPSourceData} {packet : RTPPacket}
    (h : v.Takes source s (some packet) s') (hk : DrainedTo (v.current s) (v.sources s))
    (hsource : (v.sources s)[v.current s]? = some source) :
    queued (v.sources s) = packet :: queued (v.sources s') := by
  obtain ⟨hlt, hget⟩ := List.getElem?_eq_some_iff.1 hsource
  rcases source.getNextPacket_cases with ⟨hnone, -⟩ | ⟨packet', source', hsome, hpackets⟩
  · have hp := h.packet
    rw [hnone] at hp; cases hp
  · obtain rfl : packet = packet' := by
      have hp := h.packet
      rw [hsome] at hp
      exact Option.some.inj hp
    have hsplit := List.take_append_drop (v.current s) (v.sources s)
    rw [List.drop_eq_getElem_cons hlt, hget] at hsplit
    have hbefore := hk.take
    rw [h.sources, hsome, List.set_eq_take_append_cons_drop, if_pos hlt]
    conv_lhs => rw [← hsplit]
    simp only [queued_append, queued_cons, hbefore, hpackets]
    rfl

/-- If there is none, the current source is drained, too. -/
theorem Takes.drained {source : RTPSourceData} (h : v.Takes source s none s')
    (hk : DrainedTo (v.current s) (v.sources s))
    (hsource : (v.sources s)[v.current s]? = some source) :
    v.sources s' = v.sources s ∧ DrainedTo (v.current s' + 1) (v.sources s') := by
  rcases source.getNextPacket_cases with ⟨hnone, hnil⟩ | ⟨packet, source', hsome, -⟩
  · have hsources : v.sources s' = v.sources s := by
      rw [h.sources, hnone]
      obtain ⟨hlt, rfl⟩ := List.getElem?_eq_some_iff.1 hsource
      exact List.set_getElem_self hlt
    refine ⟨hsources, ?_⟩
    rw [hsources, h.current]
    intro i other hi hother
    rcases Nat.lt_succ_iff_lt_or_eq.1 hi with hlt | rfl
    · exact hk i other hlt hother
    · rw [hsource] at hother
      rw [← Option.some.inj hother, hnil]
  · have hp := h.packet
    rw [hsome] at hp; cases hp

end SessionView

/-! ## A session -/

/-- The state of a session: the table, the current source, and how often a data access has
    begun and the clock has been read. -/
structure SourceTable where
  sources : List RTPSourceData
  current : ℕ
  round : ℕ
  ticks : ℕ

/-- The states are the table themselves. -/
def SourceTable.view : SessionView SourceTable := ⟨fun _ => True, sources, current⟩

/-- Go to the first source with data at position `k` or later. -/
def SourceTable.gotoWithData (k : ℕ) (t : SourceTable) : Bool × SourceTable :=
  match (t.sources.drop k).findIdx? RTPSourceData.hasData with
  | some i => (true, { t with current := k + i })
  | none => (false, t)

/-- Take a packet of the current source. -/
def SourceTable.getNextPacket (t : SourceTable) : Option RTPPacket × SourceTable :=
  match t.sources[t.current]? with
  | some source =>
    (source.getNextPacket.1, { t with sources := t.sources.set t.current source.getNextPacket.2 })
  | none => (none, t)

/-- One session as documented: the poll thread makes `poll n sources` of the table before data
    access `n`. -/
def tableSession (poll : ℕ → List RTPSourceData → List RTPSourceData) (clock : ℕ → RTPTime) :
    RTPSession SourceTable where
  beginDataAccess t := { t with sources := poll t.round t.sources, round := t.round + 1 }
  gotoFirstSourceWithData t := t.gotoWithData 0
  gotoNextSourceWithData t := t.gotoWithData (t.current + 1)
  getNextPacket t := t.getNextPacket
  deletePacket _ t := t
  endDataAccess t := t
  currentTime t := (clock t.ticks, { t with ticks := t.ticks + 1 })

theorem SourceTable.gotoWithData_goes (k : ℕ) (t : SourceTable) :
    view.Goes k t (t.gotoWithData k).1 (t.gotoWithData k).2 := by
  rw [gotoWithData]
  cases hfind : (t.sources.drop k).findIdx? RTPSourceData.hasData with
  | some i =>
    obtain ⟨hlt, hdata, hbefore⟩ := List.findIdx?_eq_some_iff_getElem.1 hfind
    rw [List.getElem_drop] at hdata
    refine ⟨trivial, rfl, fun _ => ⟨Nat.le_add_right k i, _, ?_, hdata⟩, ?_⟩
    · exact List.getElem?_eq_getElem _
    · intro j source hj hlt' hsource
      obtain ⟨n, rfl⟩ := Nat.exists_eq_add_of_le hj
      have hn : n < i := Nat.lt_of_add_lt_add_left (hlt' rfl)
      obtain ⟨hj', rfl⟩ := List.getElem?_eq_some_iff.1 hsource
      have hskip := hbefore n hn
      rw [List.getElem_drop] at hskip
      exact Bool.eq_false_iff.2 hskip
  | none =>
    refine ⟨trivial, rfl, fun hfound => absurd hfound Bool.false_ne_true, ?_⟩
    intro j source hj _ hsource
    refine List.findIdx?_eq_none_iff.1 hfind source ?_
    obtain ⟨n, rfl⟩ := Nat.exists_eq_add_of_le hj
    exact List.mem_of_getElem? (i := n) (by rw [List.getElem?_drop]; exact hsource)

/-- The session keeps the promises. -/
theorem tableSession_documented (poll : ℕ → List RTPSourceData → List RTPSourceData)
    (clock : ℕ → RTPTime) : (tableSession poll clock).Documented SourceTable.view where
  beginDataAccess _ := trivial
  gotoFirstSourceWithData t _ := t.gotoWithData_goes 0
  gotoNextSourceWithData t _ _ := t.gotoWithData_goes (t.current + 1)
  getNextPacket t source _ hsource := by
    have heq : t.getNextPacket = (source.getNextPacket.1,
        { t with sources := t.sources.set t.current source.getNextPacket.2 }) := by
      rw [SourceTable.getNextPacket, show t.sources[t.current]? = some source from hsource]
    change SourceTable.view.Takes source t t.getNextPacket.1 t.getNextPacket.2
    rw [heq]
    exact ⟨trivial, rfl, rfl, rfl⟩
  deletePacket _ _ _ := ⟨trivial, rfl, rfl⟩

end RayionClient
