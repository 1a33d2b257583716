/-
  Slots that own cells on a heap.

  `Owns h slots loose`: every live cell is in exactly one slot, or it is one of the loose
  cells, which no slot holds.  A new cell is loose (`Owns.alloc`), a slot exchanges its cell
  for a loose one (`Owns.swap`), and a loose cell can be deleted (`Owns.deleteIf`), so no
  cell is deleted twice.  `Owns.drop`, `Owns.lose` and `Owns.replace` are made of these.
  `contents` is what the slots hold.
-/
import Mathlib.Data.List.Nodup
import Mathlib.Logic.Function.Basic
import Mathlib.Tactic.Common

namespace Base

/-- Live cells, with pointers that are never used again; `fresh` is the next one. -/
structure Heap (β : Type) where
  cells : ℕ → Option β
  fresh : ℕ

namespace Heap
variable {β : Type} (h : Heap β)

/-- No cell is live. -/
def empty : Heap β := ⟨fun _ => none, 0⟩

/-- A new cell, and its pointer. -/
def alloc (b : β) : ℕ × Heap β :=
  (h.fresh, ⟨Function.update h.cells h.fresh (some b), h.fresh + 1⟩)

/-- There is no result where the cell is not live. -/
def delete (p : ℕ) : Option (Heap β) :=
  (h.cells p).map fun _ => { h with cells := Function.update h.cells p none }

/-- Nothing is done with the null pointer. -/
def deleteIf : Option ℕ → Option (Heap β)
  | none => some h
  | some p => h.delete p

end Heap

section
variable {β ι : Type}

/-- What is in the cell of a slot. -/
def contents (h : Heap β) (slots : ι → Option ℕ) (i : ι) : Option β := (slots i).bind h.cells

/-- Every live cell is in one slot, or loose, and none is in both. -/
structure Owns (h : Heap β) (slots : ι → Option ℕ) (loose : List ℕ) : Prop where
  live_iff : ∀ p, (h.cells p).isSome ↔ (∃ i, slots i = some p) ∨ p ∈ loose
  slots_inj : ∀ i j p, slots i = some p → slots j = some p → i = j
  not_loose : ∀ i p, slots i = some p → p ∉ loose
  nodup : loose.Nodup
  lt_fresh : ∀ p, (h.cells p).isSome → p < h.fresh

theorem owns_empty : Owns (Heap.empty : Heap β) (fun _ : ι => none) [] where
  live_iff p := by simp [Heap.empty]
  slots_inj := by simp
  not_loose := by simp
  nodup := List.nodup_nil
  lt_fresh p hp := by simp [Heap.empty] at hp

namespace Owns
variable {h : Heap β} {slots : ι → Option ℕ} {loose : List ℕ} {i : ι} {p : ℕ}

theorem live (ho : Owns h slots loose) (hi : slots i = some p) : ∃ b, h.cells p = some b :=
  Option.isSome_iff_exists.1 ((ho.live_iff p).2 (.inl ⟨i, hi⟩))

theorem contents_eq_none_iff (ho : Owns h slots loose) :
    contents h slots i = none ↔ slots i = none := by
  rw [contents]
  cases hi : slots i with
  | none => simp
  | some p =>
    obtain ⟨b, hb⟩ := ho.live hi
    simp [hb]

/-- Cells that no slot holds do not matter for the contents. -/
theorem contents_update (hother : ∀ i, slots i ≠ some p) (b : Option β) (n : ℕ) :
    contents ⟨Function.update h.cells p b, n⟩ slots = contents h slots := by
  funext i
  rw [contents, contents]
  cases hi : slots i with
  | none => rfl
  | some q =>
    have hq : q ≠ p := by rintro rfl; exact hother i hi
    exact Function.update_of_ne hq _ _

theorem fresh_dead (ho : Owns h slots loose) : ¬ (h.cells h.fresh).isSome := fun hlive =>
  Nat.lt_irrefl _ (ho.lt_fresh _ hlive)

/-- A new cell is loose. -/
theorem alloc (ho : Owns h slots loose) (b : β) :
    Owns (h.alloc b).2 slots (h.fresh :: loose) ∧
      contents (h.alloc b).2 slots = contents h slots := by
  have hslots : ∀ i, slots i ≠ some h.fresh := fun i hi =>
    ho.fresh_dead ((ho.live_iff _).2 (.inl ⟨i, hi⟩))
  have hloose : h.fresh ∉ loose := fun hl => ho.fresh_dead ((ho.live_iff _).2 (.inr hl))
  refine ⟨⟨fun p => ?_, ho.slots_inj, fun i p hi hp => ?_, List.nodup_cons.2 ⟨hloose, ho.nodup⟩,
    fun p hp => ?_⟩, contents_update hslots _ _⟩
  · rw [Heap.alloc]
    rcases eq_or_ne p h.fresh with rfl | hp
    · simp
    · simp [ho.live_iff, hp]
  · rcases List.mem_cons.1 hp with rfl | hp
    · exact hslots i hi
    · exact ho.not_loose i p hi hp
  · rw [Heap.alloc] at hp ⊢
    rcases eq_or_ne p h.fresh with rfl | hne
    · exact Nat.lt_succ_self _
    · simp only [Function.update_of_ne hne] at hp
      exact Nat.lt_succ_of_lt (ho.lt_fresh p hp)

/-- A loose cell is deleted. -/
theorem deleteIf {o : Option ℕ} (ho : Owns h slots (o.toList ++ loose)) :
    ∃ h', h.deleteIf o = some h' ∧ Owns h' slots loose ∧ contents h' slots = contents h slots := by
  cases o with
  | none => exact ⟨h, rfl, ho, rfl⟩
  | some p =>
    have hp : (h.cells p).isSome := (ho.live_iff p).2 (.inr (List.mem_cons_self ..))
    obtain ⟨b, hb⟩ := Option.isSome_iff_exists.1 hp
    have hslots : ∀ i, slots i ≠ some p := fun i hi =>
      ho.not_loose i p hi (List.mem_cons_self ..)
    obtain ⟨hloose, hnodup⟩ : p ∉ loose ∧ loose.Nodup := List.nodup_cons.1 ho.nodup
    refine ⟨⟨Function.update h.cells p none, h.fresh⟩, by
      rw [Heap.deleteIf, Heap.delete, hb]; rfl, ⟨fun q => ?_, ho.slots_inj, fun i q hi hq =>
        ho.not_loose i q hi (List.mem_cons_of_mem _ hq), hnodup, fun q hq => ?_⟩,
      contents_update hslots _ _⟩
    · rcases eq_or_ne q p with rfl | hq
      · simp [hslots, hloose]
      · have hlive := ho.live_iff q
        simp only [Option.toList_some, List.singleton_append, List.mem_cons, hq, false_or] at hlive
        simpa only [Function.update_of_ne hq] using hlive
    · rcases eq_or_ne q p with rfl | hne
      · simp at hq
      · simp only [Function.update_of_ne hne] at hq
        exact ho.lt_fresh q hq

variable [DecidableEq ι]

theorem contents_swap (i : ι) (o : Option ℕ) : contents h (Function.update slots i o) =
    Function.update (contents h slots) i (o.bind h.cells) := by
  funext j
  rcases eq_or_ne j i with rfl | hj
  · simp [contents]
  · simp [contents, Function.update_of_ne hj]

/-- A slot takes a loose cell, or none, and its own becomes loose. -/
theorem swap {o : Option ℕ} (ho : Owns h slots (o.toList ++ loose)) (i : ι) :
    Owns h (Function.update slots i o) ((slots i).toList ++ loose) := by
  have hmem : ∀ (o : Option ℕ) q, q ∈ o.toList ++ loose ↔ o = some q ∨ q ∈ loose := fun o q => by
    rw [List.mem_append, Option.mem_toList]
  have hfree : ∀ j q, slots j = some q → o ≠ some q ∧ q ∉ loose := fun j q hj =>
    not_or.1 fun hq => ho.not_loose j q hj ((hmem o q).2 hq)
  constructor
  · intro q
    rw [ho.live_iff, hmem, hmem]
    constructor
    · rintro (⟨j, hj⟩ | ho | hq)
      · rcases eq_or_ne j i with rfl | hne
        · exact .inr (.inl hj)
        · exact .inl ⟨j, by rwa [Function.update_of_ne hne]⟩
      · exact .inl ⟨i, by rwa [Function.update_self]⟩
      · exact .inr (.inr hq)
    · rintro (⟨j, hj⟩ | hi | hq)
      · rcases eq_or_ne j i with rfl | hne
        · rw [Function.update_self] at hj; exact .inr (.inl hj)
        · rw [Function.update_of_ne hne] at hj; exact .inl ⟨j, hj⟩
      · exact .inl ⟨i, hi⟩
      · exact .inr (.inr hq)
  · intro j k q hj hk
    rcases eq_or_ne j i with rfl | hji
    · rcases eq_or_ne k j with rfl | hkj
      · rfl
      · rw [Function.update_self] at hj
        rw [Function.update_of_ne hkj] at hk
        exact absurd hj (hfree k q hk).1
    · rw [Function.update_of_ne hji] at hj
      rcases eq_or_ne k i with rfl | hki
      · rw [Function.update_self] at hk
        exact absurd hk (hfree j q hj).1
      · rw [Function.update_of_ne hki] at hk
        exact ho.slots_inj j k q hj hk
  · intro j q hj hq
    rcases eq_or_ne j i with rfl | hji
    · -- the cell was loose, so no slot has it, and it is not loose twice
      rw [Function.update_self] at hj
      subst hj
      rcases (hmem _ q).1 hq with hslot | hq
      · exact (hfree j q hslot).1 rfl
      · exact (List.nodup_cons.1 ho.nodup).1 hq
    · rw [Function.update_of_ne hji] at hj
      rcases (hmem _ q).1 hq with hslot | hq
      · exact hji (ho.slots_inj j i q hj hslot)
      · exact (hfree j q hj).2 hq
  · have hloose : loose.Nodup := ho.nodup.sublist (List.sublist_append_right _ _)
    cases hi : slots i with
    | none => exact hloose
    | some q => exact List.nodup_cons.2 ⟨(hfree i q hi).2, hloose⟩
  · exact ho.lt_fresh

/-- A slot is emptied, and its cell deleted. -/
theorem drop (ho : Owns h slots loose) (i : ι) : ∃ h', h.deleteIf (slots i) = some h' ∧
    Owns h' (Function.update slots i none) loose ∧
    contents h' (Function.update slots i none) = Function.update (contents h slots) i none := by
  have hswap : Owns h (Function.update slots i none) ((slots i).toList ++ loose) :=
    swap (o := none) ho i
  obtain ⟨h', hdel, howns, hcon⟩ := hswap.deleteIf
  exact ⟨h', hdel, howns, hcon.trans (contents_swap i none)⟩

/-- A slot gets a new cell, and its old one is loose. -/
theorem lose (ho : Owns h slots loose) (i : ι) (b : β) :
    Owns (h.alloc b).2 (Function.update slots i (some h.fresh)) ((slots i).toList ++ loose) ∧
      contents (h.alloc b).2 (Function.update slots i (some h.fresh)) =
        Function.update (contents h slots) i (some b) := by
  obtain ⟨howns, hcon⟩ := ho.alloc b
  refine ⟨swap (o := some h.fresh) howns i, ?_⟩
  rw [contents_swap, hcon]
  exact congrArg _ (Function.update_self ..)

/-- A slot gets a new cell, and its old one is deleted. -/
theorem replace (ho : Owns h slots loose) (i : ι) (b : β) :
    ∃ h', (h.alloc b).2.deleteIf (slots i) = some h' ∧
      Owns h' (Function.update slots i (some h.fresh)) loose ∧
      contents h' (Function.update slots i (some h.fresh)) =
        Function.update (contents h slots) i (some b) := by
  obtain ⟨howns, hcon⟩ := ho.lose i b
  obtain ⟨h', hdel, howns', hcon'⟩ := howns.deleteIf
  exact ⟨h', hdel, howns', hcon'.trans hcon⟩

end Owns
end

end Base
