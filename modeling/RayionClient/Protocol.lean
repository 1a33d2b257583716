/-
  The data-access protocol of jrtplib, and a receiver that obeys it.

  `ObeysProtocol` says of a trace what jrtplib documents: the source table is
  used under its lock only, and a packet is given back once, after its last use.
  `Receiver` is the abstract receiver: when it has got a packet, it owes the calls
  that use it up.  Its runs obey the protocol (`Receiver.obeys`).
-/
import RayionClient.RTPHandler

namespace RayionClient

open Base

/-! ## The protocol -/

/-- A position between a `BeginDataAccess` and its `EndDataAccess`. -/
def Locked (tr : List Call) : Prop :=
  ∃ pre post, tr = pre ++ .beginDataAccess :: post ∧ .endDataAccess ∉ post

/-- The calls documented to stand between `BeginDataAccess` and `EndDataAccess`. -/
def Call.NeedsLock : Call → Prop
  | gotoFirstSourceWithData _ | gotoNextSourceWithData _ | getNextPacket _ | deletePacket _ => True
  | _ => False

/-- The calls by which a packet must have been used up. -/
def Call.EndsUse : Call → Prop
  | getNextPacket _ | endDataAccess => True
  | _ => False

/-- The packet that a call returns, uses or frees. -/
def Call.subject : Call → Option Packet
  | getNextPacket packet => packet
  | getPayloadData packet | getPayloadLength packet | deletePacket packet => some packet
  | writeFile (.payload packet _) _ => some packet
  | _ => none

/-- The calls about a packet, in order. -/
def about (p : Packet) (tr : List Call) : List Call := tr.filter (·.subject = some p)

/-- What happens to a packet once it has been returned. -/
def Packet.use (p : Packet) : List Call :=
  [.getPayloadData p, .getPayloadLength p, .writeFile (.payload p 4) (p.getPayloadLength - 4),
    .deletePacket p]

/-- What happens to a packet. -/
def Packet.life (p : Packet) : List Call := .getNextPacket (some p) :: p.use

/-- **The protocol**, at every point of a trace. -/
structure ObeysProtocol (tr : List Call) : Prop where
  opens : ∀ pre post, tr = pre ++ .beginDataAccess :: post → ¬ Locked pre
  closes : ∀ pre post, tr = pre ++ .endDataAccess :: post → Locked pre
  locked : ∀ pre call post, tr = pre ++ call :: post → call.NeedsLock → Locked pre
  life : ∀ p, about p tr <+: p.life
  complete : ∀ pre call post, tr = pre ++ call :: post → call.EndsUse →
    ∀ p, .getNextPacket (some p) ∈ pre → about p pre = p.life
  deleted : ∀ p pre post, tr = pre ++ .deletePacket p :: post →
    ∀ call ∈ post, call.subject ≠ some p

theorem locked_snoc {tr : List Call} {call : Call} : Locked (tr ++ [call]) ↔
    call = .beginDataAccess ∨ Locked tr ∧ call ≠ .endDataAccess := by
  constructor
  · rintro ⟨pre, post, heq, hpost⟩
    rcases List.eq_nil_or_concat post with rfl | ⟨post, call', rfl⟩
    · exact Or.inl (by simpa using (List.append_inj' heq rfl).2)
    · rw [List.concat_eq_append] at heq hpost
      rw [← List.cons_append, ← List.append_assoc] at heq
      obtain ⟨htr, hcall⟩ := List.append_inj' heq rfl
      obtain rfl : call = call' := by simpa using hcall
      simp only [List.mem_append, List.mem_singleton, not_or] at hpost
      exact Or.inr ⟨⟨pre, post, htr, hpost.1⟩, Ne.symm hpost.2⟩
  · rintro (rfl | ⟨⟨pre, post, rfl, hpost⟩, hcall⟩)
    · exact ⟨tr, [], rfl, List.not_mem_nil⟩
    · refine ⟨pre, post ++ [call], by simp, ?_⟩
      simp only [List.mem_append, List.mem_singleton, not_or]
      exact ⟨hpost, Ne.symm hcall⟩

@[simp] theorem about_append (p : Packet) (tr tr' : List Call) :
    about p (tr ++ tr') = about p tr ++ about p tr' := List.filter_append ..

theorem about_singleton (p : Packet) (call : Call) :
    about p [call] = if call.subject = some p then [call] else [] := by
  rw [about, List.filter_singleton]; simp

theorem subject_of_mem_life {p : Packet} {call : Call} (h : call ∈ p.life) :
    call.subject = some p := by
  simp only [Packet.life, Packet.use, List.mem_cons, List.not_mem_nil, or_false] at h
  rcases h with rfl | rfl | rfl | rfl | rfl <;> rfl

theorem about_life (p : Packet) : about p p.life = p.life :=
  List.filter_eq_self.2 fun call hc => by simpa using subject_of_mem_life hc

theorem about_life_of_ne {p q : Packet} (h : q ≠ p) : about q p.life = [] :=
  List.filter_eq_nil_iff.2 fun call hc => by simpa [subject_of_mem_life hc] using Ne.symm h

/-! ## The receiver -/

/-- The states of the receiver: before the file is created, outside and inside of a data access,
    where `todo` is what it has to do before anything else. -/
inductive Receiver where
  | starting
  | outside (received : ℕ)
  | inside (received : ℕ) (todo : List Call)

namespace Receiver

/-- How many packets have been received. -/
def received : Receiver → ℕ
  | starting => 0
  | outside n | inside n _ => n

/-- The calls that are owed. -/
def todo : Receiver → List Call
  | starting | outside _ => []
  | inside _ todo => todo

/-- What a receiver may call next. -/
inductive Step : Receiver → Call → Receiver → Prop
  | addDestination (addr : RTPIPv4Address) : Step starting (.addDestination addr) starting
  | starttime (t : RTPTime) : Step starting (.currentTime t) starting
  | createFile : Step starting .createFile (outside 0)
  | currentTime (n : ℕ) (t : RTPTime) : Step (outside n) (.currentTime t) (outside n)
  | beginDataAccess (n : ℕ) : Step (outside n) .beginDataAccess (inside n [])
  | gotoFirst (n : ℕ) (found : Bool) :
    Step (inside n []) (.gotoFirstSourceWithData found) (inside n [])
  | gotoNext (n : ℕ) (found : Bool) :
    Step (inside n []) (.gotoNextSourceWithData found) (inside n [])
  | noPacket (n : ℕ) : Step (inside n []) (.getNextPacket none) (inside n [])
  | packet (p : Packet) :
    Step (inside p.serial []) (.getNextPacket (some p)) (inside (p.serial + 1) p.use)
  | work (n : ℕ) (call : Call) (todo : List Call) :
    Step (inside n (call :: todo)) call (inside n todo)
  | endDataAccess (n : ℕ) : Step (inside n []) .endDataAccess (outside n)

/-- Every packet is either still to come, or numbered and its life is complete. -/
def Ledger (tr : List Call) (n : ℕ) : Prop :=
  ∀ p, about p tr = [] ∨ p.serial < n ∧ about p tr = p.life

theorem Ledger.snoc {tr : List Call} {n : ℕ} (h : Ledger tr n) {call : Call}
    (hc : call.subject = none) : Ledger (tr ++ [call]) n := by
  intro p
  rw [about_append, about_singleton, hc, if_neg (by simp), List.append_nil]
  exact h p

theorem Ledger.packet {tr : List Call} {p : Packet} (h : Ledger tr p.serial) :
    Ledger (tr ++ p.life) (p.serial + 1) := by
  intro q
  rw [about_append]
  by_cases hq : q = p
  · subst hq
    have hnil : about q tr = [] := (h q).resolve_right fun hlt => lt_irrefl _ hlt.1
    rw [hnil, List.nil_append, about_life]
    exact Or.inr ⟨Nat.lt_succ_self _, rfl⟩
  · rw [about_life_of_ne hq, List.append_nil]
    exact (h q).imp_right fun hlife => ⟨Nat.lt_succ_of_lt hlife.1, hlife.2⟩

/-- The invariant of the runs: the calls made and the calls owed make up whole lives, and the
    lock is held inside only. -/
structure Inv (tr : List Call) (c : Receiver) : Prop where
  ledger : Ledger (tr ++ c.todo) c.received
  locked : Locked tr ↔ ∃ n todo, c = inside n todo
  owed : ∀ call ∈ c.todo, call ≠ .beginDataAccess ∧ call ≠ .endDataAccess ∧ ¬ call.EndsUse

theorem Inv.start : Inv [] starting where
  ledger p := Or.inl rfl
  locked := by
    constructor
    · rintro ⟨pre, post, heq, -⟩
      simp at heq
    · rintro ⟨n, todo, h⟩
      cases h
  owed := by simp [todo]

theorem not_endsUse_of_mem_use {p : Packet} {call : Call} (h : call ∈ p.use) :
    call ≠ .beginDataAccess ∧ call ≠ .endDataAccess ∧ ¬ call.EndsUse := by
  simp only [Packet.use, List.mem_cons, List.not_mem_nil, or_false] at h
  rcases h with rfl | rfl | rfl | rfl <;> simp [Call.EndsUse]

theorem Inv.step {tr : List Call} {c c' : Receiver} {call : Call} (h : Inv tr c)
    (hs : Step c call c') : Inv (tr ++ [call]) c' := by
  have hledger := h.ledger
  have hlocked := h.locked
  -- a call that concerns no packet, while nothing is owed
  have quiet : c.todo = [] → c'.todo = [] → c'.received = c.received → call.subject = none →
      Ledger (tr ++ [call] ++ c'.todo) c'.received := by
    intro hc hc' hn hsub
    rw [hc, List.append_nil] at hledger
    rw [hc', hn, List.append_nil]
    exact hledger.snoc hsub
  refine ⟨?_, ?_, ?_⟩
  · cases hs with
    | packet p =>
      have hbefore : Ledger tr p.serial := by
        simpa only [todo, received, List.append_nil] using hledger
      simpa [Packet.life, todo, received] using hbefore.packet
    | work n call todo' => simpa [todo, received] using hledger
    | _ => exact quiet rfl rfl rfl rfl
  · rw [locked_snoc, hlocked]
    cases hs with
    | work n call todo' =>
      obtain ⟨hb, he, -⟩ := h.owed call (by simp [todo])
      simp [hb, he]
    | _ => simp
  · cases hs with
    | packet p => exact fun call hc => not_endsUse_of_mem_use hc
    | work n call todo' => exact fun call hc => h.owed call (List.mem_cons_of_mem _ hc)
    | _ => simp [todo]

variable {tr : List Call} {c : Receiver}

theorem inv (h : Run Step starting tr c) : Inv tr c :=
  h.inv Inv.start fun _ _ _ _ hI hs => hI.step hs

/-- What has happened to a packet so far is a part of its life. -/
theorem about_prefix_life (h : Run Step starting tr c) (p : Packet) : about p tr <+: p.life := by
  have hpre : about p tr <+: about p (tr ++ c.todo) := by
    rw [about_append]; exact List.prefix_append ..
  rcases (inv h).ledger p with hnil | ⟨-, hlife⟩
  · rw [hnil] at hpre
    rw [List.prefix_nil.1 hpre]; exact List.nil_prefix
  · rwa [hlife] at hpre

/-- `DeletePacket` ends a life. -/
theorem life_after_delete {p : Packet} {pre post : List Call}
    (h : pre ++ .deletePacket p :: post <+: p.life) : post = [] := by
  obtain ⟨rest, heq⟩ := h
  have hlife : p.life = [.getNextPacket (some p), .getPayloadData p, .getPayloadLength p,
    .writeFile (.payload p 4) (p.getPayloadLength - 4)] ++ [.deletePacket p] := rfl
  rw [hlife, List.append_assoc, List.cons_append] at heq
  rcases List.eq_nil_or_concat (post ++ rest) with hnil | ⟨front, last, hlast⟩
  · exact (List.append_eq_nil_iff.1 hnil).1
  · -- otherwise it would stand before the last call
    rw [hlast, List.concat_eq_append, ← List.cons_append, ← List.append_assoc] at heq
    have hfront := (List.append_inj' heq rfl).1
    have hmem : Call.deletePacket p ∈ pre ++ .deletePacket p :: front := by simp
    rw [hfront] at hmem
    simp at hmem

/-- **Runs of the client obey the protocol.** -/
theorem obeys (h : Run Step starting tr c) : ObeysProtocol tr where
  opens pre post heq hlocked := by
    obtain ⟨m, m', hpre, hs⟩ := h.at_split heq
    obtain ⟨n, todo, rfl⟩ := (inv hpre).locked.1 hlocked
    cases hs with
    | work => exact ((inv hpre).owed _ (List.mem_cons_self ..)).1 rfl
  closes pre post heq := by
    obtain ⟨m, m', hpre, hs⟩ := h.at_split heq
    cases hs <;> exact (inv hpre).locked.2 ⟨_, _, rfl⟩
  locked pre call post heq hcall := by
    obtain ⟨m, m', hpre, hs⟩ := h.at_split heq
    cases hs with
    | addDestination | starttime | createFile | currentTime | beginDataAccess => cases hcall
    | _ => exact (inv hpre).locked.2 ⟨_, _, rfl⟩
  life := about_prefix_life h
  complete pre call post heq hcall p hp := by
    obtain ⟨m, m', hpre, hs⟩ := h.at_split heq
    -- nothing is owed when such a call is made
    have htodo : m.todo = [] := by
      cases hs with
      | work n call todo => exact absurd hcall ((inv hpre).owed _ (List.mem_cons_self ..)).2.2
      | _ => rfl
    have hledger := (inv hpre).ledger p
    rw [htodo, List.append_nil] at hledger
    refine (hledger.resolve_left ?_).2
    intro hnil
    have hmem : Call.getNextPacket (some p) ∈ about p pre :=
      List.mem_filter.2 ⟨hp, by simp [Call.subject]⟩
    rw [hnil] at hmem; cases hmem
  deleted p pre post heq call hcall hsub := by
    have hlife := about_prefix_life h p
    rw [heq, about_append, about, about, List.filter_cons_of_pos (by simp [Call.subject])] at hlife
    have hmem : call ∈ about p post := List.mem_filter.2 ⟨hcall, by simpa using hsub⟩
    rw [about, life_after_delete hlife] at hmem
    cases hmem

end Receiver

end RayionClient
