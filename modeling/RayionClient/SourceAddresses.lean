/-
  rtpinternalsourcedata.h — the addresses of a source, `SetRTPDataAddress` and
  `SetRTCPDataAddress`.

  The source keeps copies.  `SourceAddresses.performAll_lost`: an address is what it has
  been set to last, each copy is deleted once, and a copy is lost exactly where an address
  is set to the copy that is kept already.
-/
import RayionClient.Errors
import RayionClient.Base.Ownership

namespace RayionClient

open Base

/-- `rtpaddr` and `rtcpaddr`. -/
inductive AddressSlot where
  | rtp
  | rtcp
  deriving DecidableEq

/-- The addresses of a source, the copies on the heap, and what has been set. -/
structure SourceAddresses (A : Type) where
  heap : Heap A
  addr : AddressSlot → Option ℕ
  isset : AddressSlot → Bool

/-- The address that a caller passes: the null pointer, an object of its own, or the pointer that
    `GetRTPDataAddress` or `GetRTCPDataAddress` returns. -/
inductive AddressArg (A : Type) where
  | null
  | own (a : A)
  | kept (slot : AddressSlot)

/-- The arguments of one call; `allocated`: whether `CreateCopy` has memory for the copy. -/
structure SetAddress (A : Type) where
  slot : AddressSlot
  a : AddressArg A
  allocated : Bool

namespace SourceAddresses
variable {A : Type}

/-- No address is set. -/
def new : SourceAddresses A := ⟨Heap.empty, fun _ => none, fun _ => false⟩

variable (s : SourceAddresses A)

/-- `a == 0` -/
def setNull (slot : AddressSlot) : Option (ℤ × SourceAddresses A) := do
  let heap ← s.heap.deleteIf (s.addr slot)
  return (0, ⟨heap, Function.update s.addr slot none, Function.update s.isset slot true⟩)

/-- `a != 0`: `same` is `a == rtpaddr`. -/
def setCopy (slot : AddressSlot) (a : A) (same allocated : Bool) :
    Option (ℤ × SourceAddresses A) :=
  if !allocated then some (outOfMem, s)
  else do
    let (newaddr, heap) := s.heap.alloc a
    let heap ← if same then some heap else heap.deleteIf (s.addr slot)
    return (0, ⟨heap, Function.update s.addr slot (some newaddr),
      Function.update s.isset slot true⟩)

/-- The two functions, which differ in the address that they set. -/
def setDataAddress (slot : AddressSlot) (a : AddressArg A) (allocated : Bool) :
    Option (ℤ × SourceAddresses A) :=
  match a with
  | .null => s.setNull slot
  | .own a => s.setCopy slot a false allocated
  | .kept other =>
    match s.addr other with
    | none => s.setNull slot
    | some p => do
      let a ← s.heap.cells p
      s.setCopy slot a (decide (s.addr slot = some p)) allocated

/-- `SetRTPDataAddress`. -/
def setRTPDataAddress : AddressArg A → Bool → Option (ℤ × SourceAddresses A) :=
  s.setDataAddress .rtp

/-- `SetRTCPDataAddress`. -/
def setRTCPDataAddress : AddressArg A → Bool → Option (ℤ × SourceAddresses A) :=
  s.setDataAddress .rtcp

/-- One call. -/
def perform (c : SetAddress A) : Option (ℤ × SourceAddresses A) :=
  match c.slot with
  | .rtp => s.setRTPDataAddress c.a c.allocated
  | .rtcp => s.setRTCPDataAddress c.a c.allocated

/-- One call after the other, with what they return. -/
def performAll (s : SourceAddresses A) : List (SetAddress A) → Option (List ℤ × SourceAddresses A)
  | [] => some ([], s)
  | c :: calls => do
    let (status, s) ← s.perform c
    let (statuses, s) ← s.performAll calls
    return (status :: statuses, s)

end SourceAddresses

/-! ## The addresses that are kept -/

section
variable {A : Type}

/-- What a caller passes. -/
def AddressArg.get (values : AddressSlot → Option A) : AddressArg A → Option A
  | .null => none
  | .own a => some a
  | .kept slot => values slot

/-- One call, on the addresses. -/
def setAddress (values : AddressSlot → Option A) (c : SetAddress A) :
    ℤ × (AddressSlot → Option A) :=
  match c.a.get values with
  | none => (0, Function.update values c.slot none)
  | some a =>
    if !c.allocated then (outOfMem, values) else (0, Function.update values c.slot (some a))

/-- Whether an address is set to the copy that is kept already. -/
def losesCopy (values : AddressSlot → Option A) (c : SetAddress A) : Bool :=
  match c.a with
  | .kept slot => c.allocated && slot = c.slot && (values slot).isSome
  | _ => false

/-- One call after the other, on the values. -/
def setAllAddresses (values : AddressSlot → Option A) :
    List (SetAddress A) → List ℤ × (AddressSlot → Option A)
  | [] => ([], values)
  | c :: calls =>
    let (status, values) := setAddress values c
    let (statuses, values) := setAllAddresses values calls
    (status :: statuses, values)

/-- The calls that lose a copy. -/
def lostCopies (values : AddressSlot → Option A) : List (SetAddress A) → ℕ
  | [] => 0
  | c :: calls => (losesCopy values c).toNat + lostCopies (setAddress values c).2 calls

/-- The source keeps these addresses, and has lost `n` copies. -/
structure Keeps (s : SourceAddresses A) (values : AddressSlot → Option A) (n : ℕ) : Prop where
  owns : ∃ lost, Owns s.heap s.addr lost ∧ lost.length = n
  contents : contents s.heap s.addr = values

variable {s : SourceAddresses A} {values : AddressSlot → Option A} {n : ℕ} {slot : AddressSlot}

namespace Keeps

theorem addr_eq_none_iff (hk : Keeps s values n) : s.addr slot = none ↔ values slot = none := by
  obtain ⟨lost, howns, -⟩ := hk.owns
  rw [← hk.contents]; exact howns.contents_eq_none_iff.symm

theorem setNull (hk : Keeps s values n) (slot : AddressSlot) : ∃ s', s.setNull slot = some (0, s') ∧
    Keeps s' (Function.update values slot none) n := by
  obtain ⟨lost, howns, hlen⟩ := hk.owns
  obtain ⟨h, hdel, howns', hcon⟩ := howns.drop slot
  refine ⟨⟨h, Function.update s.addr slot none, Function.update s.isset slot true⟩, ?_,
    ⟨lost, howns', hlen⟩, hcon.trans (by rw [hk.contents])⟩
  rw [SourceAddresses.setNull, hdel]; rfl

/-- There is no memory for the copy. -/
theorem setCopy_fail (hk : Keeps s values n) (slot : AddressSlot) (a : A) (same : Bool) : ∃ s',
    s.setCopy slot a same false = some (outOfMem, s') ∧ Keeps s' values n :=
  ⟨s, rfl, hk⟩

/-- The old copy is deleted. -/
theorem setCopy_other (hk : Keeps s values n) (slot : AddressSlot) (a : A) : ∃ s',
    s.setCopy slot a false true = some (0, s') ∧
      Keeps s' (Function.update values slot (some a)) n := by
  obtain ⟨lost, howns, hlen⟩ := hk.owns
  obtain ⟨h, hdel, howns', hcon⟩ := howns.replace slot a
  refine ⟨⟨h, Function.update s.addr slot (some s.heap.fresh),
    Function.update s.isset slot true⟩, ?_, ⟨lost, howns', hlen⟩,
    hcon.trans (by rw [hk.contents])⟩
  rw [SourceAddresses.setCopy]
  simp only [Bool.not_true, Bool.false_eq_true, if_false]
  rw [show (s.heap.alloc a).2.deleteIf _ = _ from hdel]; rfl

/-- The old copy is lost. -/
theorem setCopy_same (hk : Keeps s values n) (a : A) {p : ℕ} (hp : s.addr slot = some p) : ∃ s',
    s.setCopy slot a true true = some (0, s') ∧
      Keeps s' (Function.update values slot (some a)) (n + 1) := by
  obtain ⟨lost, howns, hlen⟩ := hk.owns
  obtain ⟨howns', hcon⟩ := howns.lose slot a
  rw [hp] at howns'
  exact ⟨_, rfl, ⟨p :: lost, howns', by rw [List.length_cons, hlen]⟩,
    hcon.trans (by rw [hk.contents])⟩

theorem setCopy (hk : Keeps s values n) (slot : AddressSlot) (a : A) (same allocated : Bool)
    (hsame : same = true → (s.addr slot).isSome) : ∃ s',
    s.setCopy slot a same allocated = some (if allocated then 0 else outOfMem, s') ∧
      Keeps s' (if allocated then Function.update values slot (some a) else values)
        (n + (allocated && same).toNat) := by
  cases allocated with
  | false => exact hk.setCopy_fail slot a same
  | true =>
    cases same with
    | false => exact hk.setCopy_other slot a
    | true =>
      obtain ⟨p, hp⟩ := Option.isSome_iff_exists.1 (hsame rfl)
      exact hk.setCopy_same a hp

/-- One call sets the address, and loses a copy or not. -/
theorem step (hk : Keeps s values n) (c : SetAddress A) : ∃ s',
    s.perform c = some ((setAddress values c).1, s') ∧
      Keeps s' (setAddress values c).2 (n + (losesCopy values c).toNat) := by
  have hperform : s.perform c = s.setDataAddress c.slot c.a c.allocated := by
    rw [SourceAddresses.perform]; cases c.slot <;> rfl
  rw [hperform]
  obtain ⟨slot, a, allocated⟩ := c
  cases a with
  | null => exact hk.setNull slot
  | own a =>
    obtain ⟨s', hs', hk'⟩ := hk.setCopy slot a false allocated (by simp)
    refine ⟨s', ?_, ?_⟩
    · refine hs'.trans ?_
      cases allocated <;> rfl
    · cases allocated <;> exact hk'
  | kept other =>
    cases hp : s.addr other with
    | none =>
      have hvalue := hk.addr_eq_none_iff.1 hp
      obtain ⟨s', hs', hk'⟩ := hk.setNull slot
      refine ⟨s', ?_, ?_⟩
      · simpa only [SourceAddresses.setDataAddress, hp, setAddress, AddressArg.get, hvalue]
          using hs'
      · simpa [setAddress, AddressArg.get, losesCopy, hvalue] using hk'
    | some p =>
      obtain ⟨lost, howns, -⟩ := hk.owns
      obtain ⟨a, ha⟩ := howns.live hp
      have hvalue : values other = some a := by
        rw [← hk.contents, Base.contents, hp, Option.bind_some, ha]
      -- two pointers are the same only if the slots are
      have hsame : decide (s.addr slot = some p) = decide (other = slot) := by
        refine decide_eq_decide.2 ⟨fun h => howns.slots_inj other slot p hp h, ?_⟩
        rintro rfl
        exact hp
      obtain ⟨s', hs', hk'⟩ := hk.setCopy slot a (decide (other = slot)) allocated
        (fun h => by
          rw [of_decide_eq_true h] at hp
          rw [hp]; rfl)
      refine ⟨s', ?_, ?_⟩
      · simp only [SourceAddresses.setDataAddress, hp, ha, Option.bind_eq_bind, Option.bind_some,
          hsame, hs', setAddress, AddressArg.get, hvalue]
        cases allocated <;> rfl
      · have hlost : losesCopy values ⟨slot, .kept other, allocated⟩ =
            (allocated && decide (other = slot)) := by
          simp [losesCopy, hvalue]
        rw [hlost]
        cases allocated <;> simpa [setAddress, AddressArg.get, hvalue] using hk'

theorem performAll (hk : Keeps s values n) (calls : List (SetAddress A)) : ∃ s',
    s.performAll calls = some ((setAllAddresses values calls).1, s') ∧
      Keeps s' (setAllAddresses values calls).2 (n + lostCopies values calls) := by
  induction calls generalizing s values n with
  | nil => exact ⟨s, rfl, hk⟩
  | cons c calls ih =>
    obtain ⟨s', hs', hk'⟩ := hk.step c
    obtain ⟨s'', hs'', hk''⟩ := ih hk'
    refine ⟨s'', ?_, by rwa [Nat.add_assoc] at hk''⟩
    rw [SourceAddresses.performAll, hs']
    simp only [Option.bind_eq_bind, Option.bind_some, hs'']
    rfl

end Keeps

/-- **After any calls**, the addresses are what they have been set to last; the copies on the heap
    are those of the two addresses, and one lost copy for each call that sets an address to the
    copy that is kept already. -/
theorem SourceAddresses.performAll_lost (calls : List (SetAddress A)) :
    ∃ (s : SourceAddresses A) (lost : List ℕ),
      new.performAll calls = some ((setAllAddresses (fun _ => none) calls).1, s) ∧
      (∀ slot, (s.addr slot).bind s.heap.cells = (setAllAddresses (fun _ => none) calls).2 slot) ∧
      (∀ p, (s.heap.cells p).isSome ↔ (∃ slot, s.addr slot = some p) ∨ p ∈ lost) ∧
      (∀ slot p, s.addr slot = some p → p ∉ lost) ∧ lost.Nodup ∧
      lost.length = lostCopies (fun _ => none) calls := by
  have hnew : Keeps (new : SourceAddresses A) (fun _ => none) 0 := ⟨⟨[], owns_empty, rfl⟩, rfl⟩
  obtain ⟨s, hs, hk⟩ := hnew.performAll calls
  obtain ⟨lost, howns, hlen⟩ := hk.owns
  exact ⟨s, lost, hs, congrFun hk.contents, howns.live_iff, howns.not_loose, howns.nodup,
    by rw [hlen, Nat.zero_add]⟩

end

end RayionClient
