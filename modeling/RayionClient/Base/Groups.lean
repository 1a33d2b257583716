/-
  A list cut into groups of at most `k`.

  The groups put together are the list (`flatten_groups`), none is empty or longer than
  `k` (`mem_groups`), and there are `n / k` of them for `n` elements, or one more
  (`length_groups`).  `sum_groups` is the size of all groups, each with a header.
-/
import Mathlib.Algebra.BigOperators.Group.List.Basic
import Mathlib.Algebra.GroupWithZero.Nat
import Mathlib.Tactic.Common

namespace Base

section
variable {α : Type}

/-- The groups, with at most `n` of them left. -/
def groupsFor (k : ℕ) : ℕ → List α → List (List α)
  | 0, _ => []
  | _ + 1, [] => []
  | n + 1, x :: l => (x :: l).take k :: groupsFor k n ((x :: l).drop k)

/-- The elements in groups of `k`; the last one may be smaller. -/
def groups (k : ℕ) (l : List α) : List (List α) := groupsFor k l.length l

variable {k : ℕ}

/-- Enough is enough. -/
theorem groupsFor_eq (hk : 0 < k) (n m : ℕ) (l : List α) (hn : l.length ≤ n) (hm : l.length ≤ m) :
    groupsFor k n l = groupsFor k m l := by
  induction n generalizing m l with
  | zero =>
    obtain rfl : l = [] := List.length_eq_zero_iff.1 (Nat.le_zero.1 hn)
    cases m <;> rfl
  | succ n ih =>
    cases l with
    | nil => cases m <;> rfl
    | cons x l =>
      rw [List.length_cons] at hn hm
      obtain ⟨m, rfl⟩ : ∃ m', m = m' + 1 := ⟨m - 1, by omega⟩
      have hlen : ((x :: l).drop k).length ≤ l.length := by
        rw [List.length_drop, List.length_cons]; omega
      rw [groupsFor, groupsFor, ih m _ (by omega) (by omega)]

theorem groups_cons (hk : 0 < k) (x : α) (l : List α) :
    groups k (x :: l) = (x :: l).take k :: groups k ((x :: l).drop k) := by
  have hlen : ((x :: l).drop k).length ≤ l.length := by
    rw [List.length_drop, List.length_cons]; omega
  rw [groups, groups, ← groupsFor_eq hk l.length _ _ hlen (Nat.le_refl _)]; rfl

/-- **Induction over the groups.** -/
theorem groups_induction (hk : 0 < k) {P : List α → Prop} (nil : P [])
    (cons : ∀ x l, P ((x :: l).drop k) → P (x :: l)) (l : List α) : P l := by
  induction h : l.length using Nat.strongRecOn generalizing l with
  | ind n ih =>
    cases l with
    | nil => exact nil
    | cons x l =>
      refine cons x l (ih _ ?_ _ rfl)
      rw [List.length_drop, ← h, List.length_cons]; omega

theorem flatten_groups (hk : 0 < k) (l : List α) : (groups k l).flatten = l := by
  induction l using groups_induction hk with
  | nil => rfl
  | cons x l ih => rw [groups_cons hk, List.flatten_cons, ih, List.take_append_drop]

theorem mem_groups (hk : 0 < k) {l g : List α} (hg : g ∈ groups k l) : g ≠ [] ∧ g.length ≤ k := by
  induction l using groups_induction hk with
  | nil => cases hg
  | cons x l ih =>
    rw [groups_cons hk] at hg
    rcases List.mem_cons.1 hg with rfl | hg
    · refine ⟨?_, List.length_take_le _ _⟩
      obtain ⟨k, rfl⟩ : ∃ m, k = m + 1 := ⟨k - 1, by omega⟩
      rw [List.take_succ_cons]; exact List.cons_ne_nil _ _
    · exact ih hg

theorem length_groups (hk : 0 < k) (l : List α) :
    (groups k l).length = if l.length % k ≠ 0 then l.length / k + 1 else l.length / k := by
  induction l using groups_induction hk with
  | nil => simp [groups, groupsFor]
  | cons x l ih =>
    rw [groups_cons hk, List.length_cons, ih, List.length_drop]
    rcases Nat.lt_or_ge (x :: l).length k with hlt | hge
    · -- the last group is not full
      have hpos : 0 < (x :: l).length := Nat.succ_pos _
      rw [Nat.sub_eq_zero_of_le (Nat.le_of_lt hlt), Nat.mod_eq_of_lt hlt, Nat.div_eq_of_lt hlt,
        if_pos (Nat.ne_of_gt hpos), Nat.zero_mod, Nat.zero_div, if_neg (by simp)]
    · rw [Nat.mod_eq_sub_mod hge, Nat.div_eq_sub_div hk hge]
      split_ifs <;> rfl

/-- The size of all groups, each with a header. -/
theorem sum_groups (hk : 0 < k) (hdr : ℕ) (size : α → ℕ) (l : List α) :
    ((groups k l).map fun g => hdr + (g.map size).sum).sum =
      (l.map size).sum + (groups k l).length * hdr := by
  induction l using groups_induction hk with
  | nil => simp [groups, groupsFor]
  | cons x l ih =>
    have hsplit : ((x :: l).map size).sum =
        (((x :: l).take k).map size).sum + (((x :: l).drop k).map size).sum := by
      rw [← List.sum_append, ← List.map_append, List.take_append_drop]
    rw [groups_cons hk, List.map_cons, List.sum_cons, ih, List.length_cons, hsplit, Nat.add_mul]
    omega

end

end Base
