/-
  Neighbours in a list without repetitions.

  `nextIn l a` and `prevIn l a` are what the links of a doubly linked list `l`
  hold at `a`.  The lemmas say how they change when an element is appended or
  taken out: only at its neighbours (`nextIn_concat`, `nextIn_filter_ne` and their
  mirror images).
-/
import Mathlib.Data.List.Nodup
import Mathlib.Tactic.Common

namespace Base

section
variable {α : Type} [DecidableEq α]

/-- The element behind `a`. -/
def nextIn : List α → α → Option α
  | [], _ => none
  | b :: l, a => if b = a then l.head? else nextIn l a

/-- The element in front of `a`. -/
def prevIn (l : List α) (a : α) : Option α := nextIn l.reverse a

variable {l l₁ l₂ : List α} {a b r x : α}

theorem nextIn_of_notMem (h : a ∉ l) : nextIn l a = none := by
  induction l with
  | nil => rfl
  | cons b l ih =>
    rw [List.mem_cons, not_or] at h
    rw [nextIn, if_neg (Ne.symm h.1), ih h.2]

theorem nextIn_append_cons (h : a ∉ l₁) : nextIn (l₁ ++ a :: l₂) a = l₂.head? := by
  induction l₁ with
  | nil => rw [List.nil_append, nextIn, if_pos rfl]
  | cons b l₁ ih =>
    rw [List.mem_cons, not_or] at h
    rw [List.cons_append, nextIn, if_neg (Ne.symm h.1), ih h.2]

theorem prevIn_append_cons (h : a ∉ l₂) : prevIn (l₁ ++ a :: l₂) a = l₁.getLast? := by
  rw [prevIn, List.reverse_append, List.reverse_cons, List.append_assoc, List.singleton_append,
    nextIn_append_cons (by simpa using h), List.head?_reverse]

omit [DecidableEq α] in
/-- The split of a list without repetitions at one of its elements. -/
theorem exists_split (hl : l.Nodup) (ha : a ∈ l) :
    ∃ l₁ l₂, l = l₁ ++ a :: l₂ ∧ a ∉ l₁ ∧ a ∉ l₂ := by
  obtain ⟨l₁, l₂, rfl⟩ := List.append_of_mem ha
  rw [List.nodup_middle, List.nodup_cons, List.mem_append, not_or] at hl
  exact ⟨l₁, l₂, rfl, hl.1.1, hl.1.2⟩

theorem nextIn_eq_some_iff (hl : l.Nodup) :
    nextIn l a = some b ↔ ∃ l₁ l₂, l = l₁ ++ a :: b :: l₂ := by
  constructor
  · intro h
    by_cases ha : a ∈ l
    · obtain ⟨l₁, l₂, rfl, h₁, -⟩ := exists_split hl ha
      rw [nextIn_append_cons h₁] at h
      obtain ⟨l₃, rfl⟩ := List.head?_eq_some_iff.1 h
      exact ⟨l₁, l₃, rfl⟩
    · rw [nextIn_of_notMem ha] at h; cases h
  · rintro ⟨l₁, l₂, rfl⟩
    rw [List.nodup_middle, List.nodup_cons, List.mem_append, not_or] at hl
    exact nextIn_append_cons hl.1.1

theorem prevIn_eq_some_iff (hl : l.Nodup) :
    prevIn l b = some a ↔ ∃ l₁ l₂, l = l₁ ++ a :: b :: l₂ := by
  rw [prevIn, nextIn_eq_some_iff (List.nodup_reverse.2 hl)]
  constructor
  · rintro ⟨l₁, l₂, h⟩
    exact ⟨l₂.reverse, l₁.reverse, by rw [← l.reverse_reverse, h]; simp⟩
  · rintro ⟨l₁, l₂, rfl⟩
    exact ⟨l₂.reverse, l₁.reverse, by simp⟩

/-- **The links match.** -/
theorem nextIn_eq_some_iff_prevIn (hl : l.Nodup) : nextIn l a = some b ↔ prevIn l b = some a := by
  rw [nextIn_eq_some_iff hl, prevIn_eq_some_iff hl]

theorem mem_of_nextIn (h : nextIn l a = some b) : b ∈ l := by
  induction l with
  | nil => cases h
  | cons c l ih =>
    rw [nextIn] at h
    split_ifs at h
    · exact List.mem_cons_of_mem _ (List.mem_of_head? h)
    · exact List.mem_cons_of_mem _ (ih h)

theorem mem_of_prevIn (h : prevIn l a = some b) : b ∈ l := List.mem_reverse.1 (mem_of_nextIn h)

/-- Only the last element has nothing behind it. -/
theorem nextIn_eq_none_iff (hl : l.Nodup) (ha : a ∈ l) :
    nextIn l a = none ↔ l.getLast? = some a := by
  obtain ⟨l₁, l₂, rfl, h₁, h₂⟩ := exists_split hl ha
  rw [nextIn_append_cons h₁, List.head?_eq_none_iff]
  constructor
  · rintro rfl
    exact List.getLast?_concat
  · intro hlast
    rcases List.eq_nil_or_concat l₂ with rfl | ⟨l₂, b, rfl⟩
    · rfl
    · rw [List.concat_eq_append, ← List.cons_append, ← List.append_assoc,
        List.getLast?_concat] at hlast
      cases hlast
      simp at h₂

theorem prevIn_eq_none_iff (hl : l.Nodup) (ha : a ∈ l) :
    prevIn l a = none ↔ l.head? = some a := by
  rw [prevIn, nextIn_eq_none_iff (List.nodup_reverse.2 hl) (List.mem_reverse.2 ha),
    List.getLast?_reverse]

/-! ## Appending an element -/

theorem prevIn_concat (l : List α) (x a : α) :
    prevIn (l ++ [x]) a = if x = a then l.getLast? else prevIn l a := by
  rw [prevIn, List.reverse_append, List.reverse_singleton, List.singleton_append, nextIn,
    List.head?_reverse]; rfl

theorem nextIn_concat (hl : l.Nodup) (hx : x ∉ l) (a : α) :
    nextIn (l ++ [x]) a = if l.getLast? = some a then some x else nextIn l a := by
  by_cases ha : a ∈ l
  · obtain ⟨l₁, l₂, rfl, h₁, h₂⟩ := exists_split hl ha
    rw [List.append_assoc, List.cons_append, nextIn_append_cons h₁, nextIn_append_cons h₁]
    rcases List.eq_nil_or_concat l₂ with rfl | ⟨l₂, c, rfl⟩
    · simp
    · -- `a` is not the last element
      have hc : c ≠ a := by
        rintro rfl
        simp at h₂
      rw [List.concat_eq_append, ← List.cons_append, ← List.append_assoc, List.getLast?_concat,
        if_neg (by simpa using hc)]
      cases l₂ <;> rfl
  · rw [if_neg fun h => ha (List.mem_of_getLast? h), nextIn_of_notMem ha]
    by_cases hxa : x = a
    · subst hxa
      exact nextIn_append_cons ha
    · exact nextIn_of_notMem (by simp [ha, Ne.symm hxa])

/-! ## Taking an element out -/

theorem filter_ne_of_notMem (h : r ∉ l) : l.filter (· ≠ r) = l :=
  List.filter_eq_self.2 fun b hb => by simpa using fun hbr : b = r => h (hbr ▸ hb)

theorem head?_filter_ne (hl : l.Nodup) (r : α) :
    (l.filter (· ≠ r)).head? = if l.head? = some r then nextIn l r else l.head? := by
  cases l with
  | nil => rfl
  | cons a l =>
    rw [List.nodup_cons] at hl
    by_cases ha : a = r
    · subst ha
      rw [List.filter_cons_of_neg (by simp), filter_ne_of_notMem hl.1, List.head?_cons,
        if_pos rfl, nextIn, if_pos rfl]
    · rw [List.filter_cons_of_pos (by simpa using ha), List.head?_cons, List.head?_cons,
        if_neg (by simpa using ha)]

theorem getLast?_filter_ne (hl : l.Nodup) (r : α) :
    (l.filter (· ≠ r)).getLast? = if l.getLast? = some r then prevIn l r else l.getLast? := by
  have h := head?_filter_ne (List.nodup_reverse.2 hl) r
  rwa [List.filter_reverse, List.head?_reverse, List.head?_reverse] at h

/-- The neighbours of `r` become neighbours. -/
theorem nextIn_filter_ne (hl : l.Nodup) (ha : a ≠ r) :
    nextIn (l.filter (· ≠ r)) a = if nextIn l a = some r then nextIn l r else nextIn l a := by
  induction l with
  | nil => rfl
  | cons b l ih =>
    have hl' := (List.nodup_cons.1 hl).2
    by_cases hb : b = r
    · subst hb
      have hnot := (List.nodup_cons.1 hl).1
      rw [List.filter_cons_of_neg (by simp), filter_ne_of_notMem hnot, nextIn, if_neg ha.symm,
        if_neg fun h => hnot (mem_of_nextIn h)]
    · rw [List.filter_cons_of_pos (by simpa using hb), nextIn, nextIn, nextIn, if_neg hb, ih hl',
        head?_filter_ne hl']
      by_cases hba : b = a
      · simp only [if_pos hba]
      · simp only [if_neg hba]

theorem prevIn_filter_ne (hl : l.Nodup) (ha : a ≠ r) :
    prevIn (l.filter (· ≠ r)) a = if prevIn l a = some r then prevIn l r else prevIn l a := by
  rw [prevIn, ← List.filter_reverse, nextIn_filter_ne (List.nodup_reverse.2 hl) ha]; rfl

/-! ## Positions -/

omit [DecidableEq α] in
/-- The split of a list at a position. -/
theorem exists_split_getElem? {i : ℕ} (h : l[i]? = some a) :
    ∃ l₁ l₂, l = l₁ ++ a :: l₂ ∧ l₁.length = i := by
  obtain ⟨hi, rfl⟩ := List.getElem?_eq_some_iff.1 h
  exact ⟨l.take i, l.drop (i + 1), by simp, by simp; omega⟩

omit [DecidableEq α] in
theorem notMem_of_nodup_split (hl : (l₁ ++ a :: l₂).Nodup) : a ∉ l₁ ∧ a ∉ l₂ := by
  rw [List.nodup_middle, List.nodup_cons, List.mem_append, not_or] at hl
  exact hl.1

theorem nextIn_getElem? (hl : l.Nodup) {i : ℕ} (h : l[i]? = some a) : nextIn l a = l[i + 1]? := by
  obtain ⟨l₁, l₂, rfl, rfl⟩ := exists_split_getElem? h
  rw [nextIn_append_cons (notMem_of_nodup_split hl).1, List.getElem?_append_right (by omega),
    List.head?_eq_getElem?]
  simp

theorem prevIn_getElem? (hl : l.Nodup) {i : ℕ} (h : l[i]? = some a) :
    prevIn l a = if i = 0 then none else l[i - 1]? := by
  obtain ⟨l₁, l₂, rfl, rfl⟩ := exists_split_getElem? h
  rw [prevIn_append_cons (notMem_of_nodup_split hl).2, List.getLast?_eq_getElem?]
  split_ifs with h0
  · rw [h0, List.length_eq_zero_iff.1 h0]; rfl
  · rw [List.getElem?_append_left (by omega)]

omit [DecidableEq α] in
theorem eraseIdx_split : (l₁ ++ a :: l₂).eraseIdx l₁.length = l₁ ++ l₂ := by
  rw [List.eraseIdx_append_of_length_le (Nat.le_refl _), Nat.sub_self]; rfl

end

/-! ## Elements with distinct keys -/

theorem find?_key_eq_some_iff {α β : Type} [DecidableEq β] {f : α → β} {l : List α} {a : α} {b : β}
    (h : (l.map f).Nodup) : l.find? (f · = b) = some a ↔ a ∈ l ∧ f a = b := by
  constructor
  · intro hf
    exact ⟨List.mem_of_find?_eq_some hf, by simpa using List.find?_some hf⟩
  · rintro ⟨ha, rfl⟩
    cases hf : l.find? (f · = f a) with
    | none => simpa using List.find?_eq_none.1 hf a ha
    | some a' =>
      have heq : f a' = f a := by simpa using List.find?_some hf
      rw [List.inj_on_of_nodup_map h (List.mem_of_find?_eq_some hf) ha heq]

end Base
