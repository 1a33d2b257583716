/-
  `recvPackets` obeys the data-access protocol.

  `Tracks` relates the frames of `recvPackets` to the states of the abstract
  receiver.  In related states the loop makes a call that the receiver can make
  (`recvStep_tracks`), whatever the session answers; in particular it never
  gets stuck.
-/
import RayionClient.Protocol
import RayionClient.Sources
import Mathlib.Data.Fin.VecNotation

namespace RayionClient

open Base

section
variable {σ : Type}

/-- The receiver seen in a frame: what it owes for the packet it has, and that the local
    variables still to be used belong to that packet. -/
structure Tracks (f : Frame σ) (c : Receiver) : Prop where
  running : f.done = false
  started : f.pc = .addDestination ∨ f.pc = .starttime ∨ ∃ t, f.starttime = some t
  state : match f.pc with
    | .addDestination | .starttime | .createFile => c = .starting ∧ f.received = 0
    | .loop | .currentTime => c = .outside f.received
    | .gotoFirst | .getNextPacket | .gotoNext | .endDataAccess => c = .inside f.received []
    | .getPayloadData => ∃ p, f.packet = some p ∧ c = .inside f.received p.use
    | .getPayloadLength => ∃ p, f.packet = some p ∧ f.recvdata = some (.payload p 0) ∧
      c = .inside f.received (p.use.drop 1)
    | .writeFile => ∃ p, f.packet = some p ∧ f.recvdata = some (.payload p 0) ∧
      f.length = some p.getPayloadLength.toInt32 ∧ c = .inside f.received (p.use.drop 2)
    | .deletePacket => ∃ p, f.packet = some p ∧ c = .inside f.received (p.use.drop 3)
    | .returned => False

theorem tracks_entry (session : σ) : Tracks (Frame.entry session) .starting :=
  ⟨rfl, Or.inl rfl, rfl, rfl⟩

variable {lib : RTPSession σ} {h : RTPHandler}

/-- **One call of `recvPackets` is one call of the receiver.** -/
theorem Tracks.step {f f' : Frame σ} {c : Receiver} {call : Call} (ht : Tracks f c)
    (hs : recvStep lib h f = some (call, f')) :
    ∃ c', Receiver.Step c call c' ∧ Tracks f' c' := by
  obtain ⟨hdone, hstart, hstate⟩ := ht
  rw [recvStep] at hs
  cases hpc : f.pc with
  | addDestination =>
    simp only [hpc] at hs hstate
    cases hs
    obtain ⟨rfl, hn⟩ := hstate
    exact ⟨_, .addDestination _, hdone, Or.inr (Or.inl rfl), rfl, hn⟩
  | starttime =>
    simp only [hpc] at hs hstate
    cases hs
    obtain ⟨rfl, hn⟩ := hstate
    exact ⟨_, .starttime _, rfl, Or.inr (Or.inr ⟨_, rfl⟩), rfl, hn⟩
  | createFile =>
    simp only [hpc, reduceCtorEq, false_or] at hs hstate hstart
    cases hs
    obtain ⟨rfl, hn⟩ := hstate
    exact ⟨_, .createFile, hdone, Or.inr (Or.inr hstart), congrArg Receiver.outside hn.symm⟩
  | loop =>
    simp only [hpc, hdone, Bool.false_eq_true, if_false, reduceCtorEq, false_or] at hs hstate hstart
    cases hs
    subst hstate
    exact ⟨_, .beginDataAccess _, rfl, Or.inr (Or.inr hstart), rfl⟩
  | gotoFirst =>
    simp only [hpc, reduceCtorEq, false_or] at hs hstate hstart
    cases hs
    subst hstate
    refine ⟨_, .gotoFirst _ _, hdone, Or.inr (Or.inr hstart), ?_⟩
    cases (lib.gotoFirstSourceWithData f.session).1 <;> rfl
  | getNextPacket =>
    simp only [hpc, reduceCtorEq, false_or] at hs hstate hstart
    subst hstate
    split at hs
    · cases hs
      exact ⟨_, .packet ⟨f.received, _⟩, hdone, Or.inr (Or.inr hstart), _, rfl, rfl⟩
    · cases hs
      exact ⟨_, .noPacket _, hdone, Or.inr (Or.inr hstart), rfl⟩
  | getPayloadData =>
    simp only [hpc, reduceCtorEq, false_or] at hs hstate hstart
    obtain ⟨p, hp, rfl⟩ := hstate
    rw [hp] at hs
    cases hs
    exact ⟨_, .work _ _ _, hdone, Or.inr (Or.inr hstart), p, rfl, rfl, rfl⟩
  | getPayloadLength =>
    simp only [hpc, reduceCtorEq, false_or] at hs hstate hstart
    obtain ⟨p, hp, hdata, rfl⟩ := hstate
    rw [hp] at hs
    cases hs
    exact ⟨_, .work _ _ _, hdone, Or.inr (Or.inr hstart), p, rfl, hdata, rfl, rfl⟩
  | writeFile =>
    simp only [hpc, reduceCtorEq, false_or] at hs hstate hstart
    obtain ⟨p, hp, hdata, hlen, rfl⟩ := hstate
    rw [hdata, hlen] at hs
    obtain ⟨rfl, rfl⟩ := Prod.mk.inj (Option.some.inj hs)
    rw [payloadWrite_eq]
    exact ⟨_, .work _ _ _, hdone, Or.inr (Or.inr hstart), p, hp, rfl⟩
  | deletePacket =>
    simp only [hpc, reduceCtorEq, false_or] at hs hstate hstart
    obtain ⟨p, hp, rfl⟩ := hstate
    rw [hp] at hs
    cases hs
    exact ⟨_, .work _ _ _, hdone, Or.inr (Or.inr hstart), rfl⟩
  | gotoNext =>
    simp only [hpc, reduceCtorEq, false_or] at hs hstate hstart
    cases hs
    subst hstate
    refine ⟨_, .gotoNext _ _, hdone, Or.inr (Or.inr hstart), ?_⟩
    cases (lib.gotoNextSourceWithData f.session).1 <;> rfl
  | endDataAccess =>
    simp only [hpc, reduceCtorEq, false_or] at hs hstate hstart
    cases hs
    subst hstate
    exact ⟨_, .endDataAccess _, hdone, Or.inr (Or.inr hstart), rfl⟩
  | currentTime =>
    simp only [hpc, reduceCtorEq, false_or] at hs hstate hstart
    obtain ⟨t, ht⟩ := hstart
    rw [ht] at hs
    cases hs
    subst hstate
    exact ⟨_, .currentTime _ _, hdone, Or.inr (Or.inr ⟨t, rfl⟩), rfl⟩
  | returned => simp only [hpc] at hstate

/-- The loop never ends, and never gets stuck. -/
theorem Tracks.exists_step {f : Frame σ} {c : Receiver} (ht : Tracks f c) :
    ∃ call f', recvStep lib h f = some (call, f') := by
  obtain ⟨hdone, hstart, hstate⟩ := ht
  rw [recvStep]
  cases hpc : f.pc with
  | loop => simp [hdone]
  | getNextPacket =>
    simp only
    split <;> exact ⟨_, _, rfl⟩
  | getPayloadData =>
    simp only [hpc] at hstate
    obtain ⟨p, hp, -⟩ := hstate
    simp [hp]
  | getPayloadLength =>
    simp only [hpc] at hstate
    obtain ⟨p, hp, -⟩ := hstate
    simp [hp]
  | writeFile =>
    simp only [hpc] at hstate
    obtain ⟨p, -, hdata, hlen, -⟩ := hstate
    simp [hdata, hlen]
  | deletePacket =>
    simp only [hpc] at hstate
    obtain ⟨p, hp, -⟩ := hstate
    simp [hp]
  | currentTime =>
    simp only [hpc, reduceCtorEq, false_or] at hstart
    obtain ⟨t, ht⟩ := hstart
    simp [ht]
  | returned => simp only [hpc] at hstate
  | _ => exact ⟨_, _, rfl⟩

/-- The runs of `recvPackets` are runs of the receiver. -/
theorem RecvRun.receiver {session : σ} {tr : List Call} {f : Frame σ}
    (hrun : RecvRun lib h session tr f) :
    ∃ c, Run Receiver.Step .starting tr c ∧ Tracks f c :=
  hrun.simulate (tracks_entry session) fun _ _ _ _ ht hs => ht.step hs

/-- **`recvPackets` obeys the protocol**, whatever the session answers. -/
theorem recvPackets_obeysProtocol {session : σ} {tr : List Call} {f : Frame σ}
    (hrun : RecvRun lib h session tr f) : ObeysProtocol tr := by
  obtain ⟨c, hc, -⟩ := hrun.receiver
  exact Receiver.obeys hc

end

/-! ## Two rounds -/

/-- Two sources have packets before the first round; in the second, only the second source has
    one, of four bytes. -/
def twoPolls : ℕ → List RTPSourceData → List RTPSourceData
  | 0, _ => [⟨7, true, [⟨[0, 0, 0, 0, 65], by decide⟩, ⟨[0, 0, 0, 0, 66, 67], by decide⟩]⟩,
      ⟨8, true, []⟩, ⟨9, true, [⟨[1, 2, 3, 4, 68], by decide⟩]⟩]
  | 1, _ => [⟨7, true, []⟩, ⟨9, true, [⟨[1, 2, 3, 4], by decide⟩]⟩]
  | _ + 2, sources => sources

/-- The session with these packets; its clock stands still. -/
def twoPollSession : RTPSession SourceTable := tableSession twoPolls fun _ => ⟨0, 0⟩

/-- The calls of both rounds. -/
def twoRounds : List Call × Frame SourceTable :=
  runFor (recvStep twoPollSession (initRTPHandler ![192, 168, 1, 115] 55778)) 37
    (Frame.entry ⟨[], 0, 0, 0⟩)

theorem twoRounds_obeysProtocol :
    .deletePacket ⟨2, 9, [1, 2, 3, 4, 68], by decide⟩ ∈ twoRounds.1 ∧ ObeysProtocol twoRounds.1 :=
  ⟨by decide, recvPackets_obeysProtocol (run_runFor _ _ 37)⟩

end RayionClient
