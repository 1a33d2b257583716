/-
  The hash tables of jrtplib are lists of entries.

  `Represents.perform`: on a table that a list of elements makes in memory, every
  operation does what it does on the list, and is undefined exactly where it is
  there.  `hashTable_trace_iff` carries this to whole runs.
-/
import RayionClient.HashTableMemory
import RayionClient.Base.Machine

namespace RayionClient

open Base

section
variable {K V : Type} {p : TableParams K} {nodes : List (Node K V)} {fresh : ℕ}
  {n : Node K V} {c : Position} {cur : Option (Option Ref)} {t : HashTable K V} {s : Entries K V}

/-! ## Positions -/

theorem getElem?_refs (i : ℕ) : (refs nodes)[i]? = nodes[i]?.map Node.ref := List.getElem?_map

theorem pointsTo_cursorAt (nodes : List (Node K V)) (fresh i : ℕ) :
    PointsTo nodes fresh (Entries.cursorAt (nodes.map Node.entry) i) (some (refs nodes)[i]?) := by
  rw [Entries.cursorAt, List.length_map, getElem?_refs]
  split_ifs with hi
  · exact ⟨nodes[i].ref, by simp [hi], by simp [getElem?_refs, hi]⟩
  · rw [PointsTo, List.getElem?_eq_none (Nat.le_of_not_lt hi)]; rfl

/-- The element at the current position. -/
theorem PointsTo.exists_node {i : ℕ} (h : PointsTo nodes fresh (.index i) cur) :
    ∃ n ∈ nodes, nodes[i]? = some n ∧ cur = some (some n.ref) := by
  obtain ⟨r, rfl, hr⟩ := h
  rw [getElem?_refs] at hr
  obtain ⟨n, hn, rfl⟩ := Option.map_eq_some_iff.1 hr
  exact ⟨n, List.mem_of_getElem? hn, hn, rfl⟩

theorem current_layout (h : WellFormed p nodes fresh) {c : Position}
    (hc : PointsTo nodes fresh c cur) :
    (layout p nodes fresh cur).current.map (fun x => (x.key, x.element)) =
      (Entries.mk (nodes.map Node.entry) c).current := by
  cases c with
  | indeterminate =>
    obtain rfl : cur = none := hc
    rfl
  | dangling =>
    obtain ⟨r, rfl, -, hr⟩ := hc
    simp [HashTable.current, layout, cells_of_notMem hr, Entries.current]
  | null =>
    obtain rfl : cur = some none := hc
    rfl
  | index i =>
    obtain ⟨n, hn, hi, rfl⟩ := hc.exists_node
    simp [HashTable.current, layout, cells_of_mem h.nodupRefs hn, Entries.current, hi, cell,
      Node.entry]

/-! ## The operations -/

/-- Two runs of an operation: both undefined, or with the same result in related states. -/
abbrev Same {R : Type} (p : TableParams K) (x : Option (R × HashTable K V))
    (y : Option (R × Entries K V)) : Prop :=
  Option.Rel (fun x y => x.1 = y.1 ∧ Represents p x.2 y.2) x y

theorem Same.map {R R' : Type} {x : Option (R × HashTable K V)} {y : Option (R × Entries K V)}
    (h : Same p x y) (f : R → R') :
    Same p (x.map fun (a, t) => (f a, t)) (y.map fun (a, s) => (f a, s)) := by
  cases h with
  | some h => exact .some ⟨congrArg f h.1, h.2⟩
  | none => exact .none

theorem Same.exists_left {R : Type} {x : Option (R × HashTable K V)} {r : R}
    (h : Same p x (some (r, s))) : ∃ t, x = some (r, t) ∧ Represents p t s := by
  generalize hy : some (r, s) = y at h
  cases h with
  | some h =>
    obtain rfl := Option.some.inj hy
    exact ⟨_, congrArg some (Prod.ext h.1 rfl), h.2⟩
  | none => cases hy

theorem Same.exists_right {R : Type} {y : Option (R × Entries K V)} {r : R}
    (h : Same p (some (r, t)) y) : ∃ s, y = some (r, s) ∧ Represents p t s := by
  generalize hx : some (r, t) = x at h
  cases h with
  | some h =>
    obtain rfl := Option.some.inj hx
    exact ⟨_, congrArg some (Prod.ext h.1.symm rfl), h.2⟩
  | none => cases hx

theorem Same.eq_none {R : Type} {y : Option (R × Entries K V)} (h : Same p none y) : y = none := by
  cases h; rfl

/-- The representation, taken apart. -/
theorem Represents.exists_layout (ht : Represents p t s) : ∃ nodes fresh c cur,
    t = layout p nodes fresh cur ∧ s = ⟨nodes.map Node.entry, c⟩ ∧ WellFormed p nodes fresh ∧
      PointsTo nodes fresh c cur := by
  obtain ⟨nodes, fresh, cur, rfl, hwf, hentries, hcur⟩ := ht
  obtain ⟨entries, c⟩ := s
  obtain rfl : entries = nodes.map Node.entry := hentries
  exact ⟨nodes, fresh, c, cur, rfl, rfl, hwf, hcur⟩

theorem represents_layout (hwf : WellFormed p nodes fresh) {c : Position}
    (hc : PointsTo nodes fresh c cur) :
    Represents p (layout p nodes fresh cur) ⟨nodes.map Node.entry, c⟩ :=
  ⟨nodes, fresh, cur, rfl, hwf, rfl, hc⟩

theorem Represents.gotoFirst (ht : Represents p t s) : Represents p t.gotoFirstElement
    { s with cursor := Entries.cursorAt s.entries 0 } := by
  obtain ⟨nodes, fresh, c, cur, rfl, rfl, hwf, -⟩ := ht.exists_layout
  refine represents_layout hwf ?_
  have hpt := pointsTo_cursorAt nodes fresh 0
  rwa [← List.head?_eq_getElem?] at hpt

theorem Represents.gotoLast (ht : Represents p t s) : Represents p t.gotoLastElement
    { s with cursor := Entries.cursorAt s.entries (s.entries.length - 1) } := by
  obtain ⟨nodes, fresh, c, cur, rfl, rfl, hwf, -⟩ := ht.exists_layout
  refine represents_layout hwf ?_
  have hpt := pointsTo_cursorAt nodes fresh (nodes.length - 1)
  have hlast : (refs nodes)[nodes.length - 1]? = (refs nodes).getLast? := by
    rw [List.getLast?_eq_getElem?, refs, List.length_map]
  rw [hlast] at hpt
  rwa [List.length_map]

theorem Represents.hasCurrent (ht : Represents p t s) : t.hasCurrentElement = s.hasCurrent := by
  obtain ⟨nodes, fresh, c, cur, rfl, rfl, hwf, hc⟩ := ht.exists_layout
  cases c with
  | indeterminate =>
    obtain rfl : cur = none := hc
    rfl
  | dangling =>
    obtain ⟨r, rfl, -⟩ := hc
    rfl
  | null =>
    obtain rfl : cur = some none := hc
    rfl
  | index i =>
    obtain ⟨r, rfl, -⟩ := hc
    rfl

theorem Represents.current (ht : Represents p t s) :
    t.current.map (fun x => (x.key, x.element)) = s.current := by
  obtain ⟨nodes, fresh, c, cur, rfl, rfl, hwf, hc⟩ := ht.exists_layout
  exact current_layout hwf hc

theorem Represents.gotoNext (ht : Represents p t s) :
    Option.Rel (Represents p) t.gotoNextElement s.gotoNext := by
  obtain ⟨nodes, fresh, c, cur, rfl, rfl, hwf, hc⟩ := ht.exists_layout
  cases c with
  | indeterminate =>
    obtain rfl : cur = none := hc
    exact .none
  | dangling =>
    obtain ⟨r, rfl, -, hr⟩ := hc
    have hnone : (layout p nodes fresh (some (some r))).gotoNextElement = none := by
      simp [HashTable.gotoNextElement, layout, cells_of_notMem hr]
    rw [hnone]
    exact .none
  | null =>
    obtain rfl : cur = some none := hc
    exact .some (represents_layout hwf rfl)
  | index i =>
    obtain ⟨n, hn, hi, rfl⟩ := hc.exists_node
    have hstep : (layout p nodes fresh (some (some n.ref))).gotoNextElement =
        some (layout p nodes fresh (some (nextIn (refs nodes) n.ref))) := by
      simp [HashTable.gotoNextElement, layout, cells_of_mem hwf.nodupRefs hn, cell]
    have hnext : nextIn (refs nodes) n.ref = (refs nodes)[i + 1]? :=
      nextIn_getElem? hwf.nodupRefs (by rw [getElem?_refs, hi]; rfl)
    rw [hstep, hnext]
    exact .some (represents_layout hwf (pointsTo_cursorAt _ _ (i + 1)))

theorem Represents.gotoPrevious (ht : Represents p t s) :
    Option.Rel (Represents p) t.gotoPreviousElement s.gotoPrevious := by
  obtain ⟨nodes, fresh, c, cur, rfl, rfl, hwf, hc⟩ := ht.exists_layout
  cases c with
  | indeterminate =>
    obtain rfl : cur = none := hc
    exact .none
  | dangling =>
    obtain ⟨r, rfl, -, hr⟩ := hc
    have hnone : (layout p nodes fresh (some (some r))).gotoPreviousElement = none := by
      simp [HashTable.gotoPreviousElement, layout, cells_of_notMem hr]
    rw [hnone]
    exact .none
  | null =>
    obtain rfl : cur = some none := hc
    exact .some (represents_layout hwf rfl)
  | index i =>
    obtain ⟨n, hn, hi, rfl⟩ := hc.exists_node
    have hstep : (layout p nodes fresh (some (some n.ref))).gotoPreviousElement =
        some (layout p nodes fresh (some (prevIn (refs nodes) n.ref))) := by
      simp [HashTable.gotoPreviousElement, layout, cells_of_mem hwf.nodupRefs hn, cell]
    have hprev := prevIn_getElem? (i := i) (a := n.ref) hwf.nodupRefs
      (by rw [getElem?_refs, hi]; rfl)
    rw [hstep, hprev]
    cases i with
    | zero => exact .some (represents_layout hwf rfl)
    | succ i =>
      have hlt : i < nodes.length := by
        have hi' := (List.getElem?_eq_some_iff.1 hi).1
        omega
      have hpt := pointsTo_cursorAt nodes fresh i
      rw [Entries.cursorAt, List.length_map, if_pos hlt] at hpt
      exact .some (represents_layout hwf hpt)

theorem Represents.deleteCurrent (ht : Represents p t s) :
    Same p (t.deleteCurrentElement p) (s.deleteCurrent p) := by
  obtain ⟨nodes, fresh, c, cur, rfl, rfl, hwf, hc⟩ := ht.exists_layout
  cases c with
  | indeterminate =>
    obtain rfl : cur = none := hc
    exact .none
  | dangling =>
    obtain ⟨r, rfl, -, hr⟩ := hc
    have hnone : (layout p nodes fresh (some (some r))).deleteCurrentElement p = none := by
      simp [HashTable.deleteCurrentElement, HashTable.relinkBucket, layout, cells_of_notMem hr]
    rw [hnone]
    exact .none
  | null =>
    obtain rfl : cur = some none := hc
    exact .some ⟨rfl, represents_layout hwf rfl⟩
  | index i =>
    obtain ⟨n, hn, hi, rfl⟩ := hc.exists_node
    obtain ⟨l₁, l₂, rfl, rfl⟩ := exists_split_getElem? hi
    obtain ⟨hn₁, hn₂⟩ : n.ref ∉ refs l₁ ∧ n.ref ∉ refs l₂ := by
      have hnd := hwf.nodupRefs
      rw [refs, List.map_append, List.map_cons] at hnd
      exact notMem_of_nodup_split hnd
    have hwithout : without (l₁ ++ n :: l₂) n.ref = l₁ ++ l₂ := by
      rw [without, List.filter_append, List.filter_cons_of_neg (by simp)]
      exact congrArg₂ _ (without_of_notMem hn₁) (without_of_notMem hn₂)
    have hnext : nextIn (refs (l₁ ++ n :: l₂)) n.ref = (refs (l₁ ++ l₂))[l₁.length]? := by
      have hsplit : refs (l₁ ++ n :: l₂) = refs l₁ ++ n.ref :: refs l₂ := by simp [refs]
      have hrest : refs (l₁ ++ l₂) = refs l₁ ++ refs l₂ := by simp [refs]
      have hlen : (refs l₁).length = l₁.length := List.length_map _
      rw [hsplit, nextIn_append_cons hn₁, hrest, List.getElem?_append_right (by omega), hlen,
        Nat.sub_self, List.head?_eq_getElem?]
    have hentries : ((l₁ ++ n :: l₂).map Node.entry).eraseIdx l₁.length =
        (l₁ ++ l₂).map Node.entry := by
      rw [List.map_append, List.map_cons, ← List.length_map (f := Node.entry), eraseIdx_split,
        List.map_append]
    rw [deleteCurrentElement_layout hwf hn, hnext, hwithout]
    refine .some ⟨rfl, ?_⟩
    rw [hentries]
    exact represents_layout (hwithout ▸ hwf.without n.ref) (pointsTo_cursorAt _ _ l₁.length)

/-! ## Keys -/

/-- An index is rejected, or it is in front of the table, or it is in the table. -/
theorem index_cases (p : TableParams K) (k : K) :
    p.getIndex k ≥ p.hashsize ∨ p.getIndex k < 0 ∨ HashTable.InTable p (p.getIndex k) := by
  rw [HashTable.InTable]
  omega

theorem HashTable.InTable.not_ge {index : ℤ} (h : InTable p index) : ¬ index ≥ p.hashsize :=
  Int.not_le.2 h.2

theorem getTable_neg {index : ℤ} (h : index < 0) : t.getTable p index = none :=
  if_neg fun hin => Int.not_le.2 h hin.1

section
variable {α : Type} {invalid x : α} {k : K}

theorem withIndex_of_ge (h : p.getIndex k ≥ p.hashsize) :
    Entries.withIndex p k invalid x = some invalid := if_pos h

theorem withIndex_of_neg (h : p.getIndex k < 0) : Entries.withIndex p k invalid x = none := by
  rw [Entries.withIndex, if_neg (by omega), if_pos h]

theorem withIndex_of_inTable (h : HashTable.InTable p (p.getIndex k)) :
    Entries.withIndex p k invalid x = some x := by
  rw [Entries.withIndex, if_neg (HashTable.InTable.not_ge h), if_neg (Int.not_lt.2 h.1)]

end

section
variable [DecidableEq K] {k : K}

theorem position_refs (k : K) (c : Position) :
    (refs nodes)[Entries.position ⟨nodes.map Node.entry, c⟩ k]? =
      (nodes.find? (·.key = k)).map Node.ref := by
  rw [getElem?_refs, List.find?_eq_getElem?_findIdx, Entries.position, List.findIdx_map]; rfl

theorem hasKey_eq (k : K) (c : Position) :
    Entries.hasKey ⟨nodes.map Node.entry, c⟩ k = (nodes.find? (·.key = k)).isSome := by
  rw [List.isSome_find?, Entries.hasKey, List.any_map]; rfl

theorem hasKey_iff {c : Position} :
    Entries.hasKey ⟨nodes.map Node.entry, c⟩ k = true ↔ k ∈ keys nodes := by
  rw [hasKey_eq, Option.isSome_iff_ne_none, ne_eq, find?_key_eq_none_iff, not_not]

/-- The search of an operation, in the chain of the key's bucket. -/
theorem layout_findKey (h : WellFormed p nodes fresh) (k : K) :
    HashTable.findKey (layout p nodes fresh cur).heap k (layout p nodes fresh cur).fresh
        ((layout p nodes fresh cur).table (p.getIndex k)) =
      some ((nodes.find? (·.key = k)).map Node.ref) := h.findKey k

theorem Represents.hasElement (ht : Represents p t s) (k : K) :
    t.hasElement p k = Entries.withIndex p k false (s.hasKey k) := by
  obtain ⟨nodes, fresh, c, cur, rfl, rfl, hwf, -⟩ := ht.exists_layout
  rw [HashTable.hasElement]
  rcases index_cases p k with hge | hneg | hin
  · rw [withIndex_of_ge hge, if_pos hge]
  · rw [withIndex_of_neg hneg, if_neg (by omega), getTable_neg hneg]; rfl
  · rw [withIndex_of_inTable hin, if_neg (HashTable.InTable.not_ge hin), HashTable.getTable,
      if_pos hin, hasKey_eq]
    simp only [Option.bind_eq_bind, Option.bind_some, layout_findKey hwf]
    simp

theorem Represents.gotoElement (ht : Represents p t s) (k : K) :
    Same p (t.gotoElement p k) (s.gotoKey p k) := by
  obtain ⟨nodes, fresh, c, cur, rfl, rfl, hwf, hc⟩ := ht.exists_layout
  rw [HashTable.gotoElement, Entries.gotoKey]
  rcases index_cases p k with hge | hneg | hin
  · rw [withIndex_of_ge hge, if_pos hge]
    exact .some ⟨rfl, ht⟩
  · rw [withIndex_of_neg hneg, if_neg (by omega), getTable_neg hneg]
    exact .none
  · rw [withIndex_of_inTable hin, if_neg (HashTable.InTable.not_ge hin), HashTable.getTable,
      if_pos hin]
    simp only [Option.bind_eq_bind, Option.bind_some, layout_findKey hwf]
    refine .some ⟨?_, ?_⟩
    · rw [hasKey_eq]
      cases nodes.find? (·.key = k) <;> rfl
    · rw [← position_refs k c]
      exact represents_layout hwf (pointsTo_cursorAt _ _ _)

theorem Represents.delete (ht : Represents p t s) (k : K) :
    Same p (t.deleteElement p k) (s.delete p k) := by
  have hgo := ht.gotoElement k
  rw [HashTable.deleteElement, Entries.delete]
  cases hgo' : t.gotoElement p k with
  | none =>
    rw [hgo'] at hgo
    rw [hgo.eq_none]
    exact .none
  | some x =>
    obtain ⟨status, t'⟩ := x
    rw [hgo'] at hgo
    obtain ⟨s', hs', ht'⟩ := hgo.exists_right
    rw [hs']
    simp only [Option.bind_eq_bind, Option.bind_some]
    split_ifs
    · exact .some ⟨rfl, ht'⟩
    · exact ht'.deleteCurrent

omit [DecidableEq K] in
theorem PointsTo.concat (hc : PointsTo nodes fresh c cur) (hfresh : n.ref = fresh) :
    PointsTo (nodes ++ [n]) (fresh + 1) c cur := by
  cases c with
  | indeterminate => exact hc
  | null => exact hc
  | dangling =>
    obtain ⟨r, rfl, hlt, hr⟩ := hc
    refine ⟨r, rfl, Nat.lt_succ_of_lt hlt, ?_⟩
    rw [refs_concat, List.mem_append, List.mem_singleton, not_or, hfresh]
    exact ⟨hr, Nat.ne_of_lt hlt⟩
  | index i =>
    obtain ⟨r, rfl, hr⟩ := hc
    refine ⟨r, rfl, ?_⟩
    rw [refs_concat, List.getElem?_append_left (List.getElem?_eq_some_iff.1 hr).1]
    exact hr

theorem Represents.add (ht : Represents p t s) (k : K) (elem : V) (allocated : Bool) :
    Same p (t.addElement p k elem allocated) (s.add p k elem allocated) := by
  obtain ⟨nodes, fresh, c, cur, rfl, rfl, hwf, hc⟩ := ht.exists_layout
  rw [Entries.add]
  rcases index_cases p k with hge | hneg | hin
  · rw [withIndex_of_ge hge, HashTable.addElement, if_pos hge]
    exact .some ⟨rfl, ht⟩
  · rw [withIndex_of_neg hneg, HashTable.addElement, if_neg (by omega), getTable_neg hneg]
    exact .none
  · rw [withIndex_of_inTable hin]
    by_cases hk : k ∈ keys nodes
    · have hfound : (nodes.find? (·.key = k)).map Node.ref ≠ none := by
        rw [ne_eq, Option.map_eq_none_iff, find?_key_eq_none_iff]
        exact not_not.2 hk
      rw [if_pos (hasKey_iff.2 hk), HashTable.addElement, if_neg (HashTable.InTable.not_ge hin),
        HashTable.getTable, if_pos hin]
      simp only [Option.bind_eq_bind, Option.bind_some, layout_findKey hwf, if_pos hfound]
      exact .some ⟨rfl, ht⟩
    · rw [if_neg (mt hasKey_iff.1 hk)]
      cases allocated with
      | true =>
        rw [addElement_layout hwf elem hk hin]
        refine .some ⟨rfl, ?_⟩
        have hrep := represents_layout (hwf.concat elem hk hin)
          (hc.concat (n := ⟨fresh, k, elem⟩) rfl)
        rwa [List.map_append] at hrep
      | false =>
        have hfound := find?_key_eq_none_iff.2 hk
        rw [HashTable.addElement, if_neg (HashTable.InTable.not_ge hin), HashTable.getTable,
          if_pos hin]
        simp only [Option.bind_eq_bind, Option.bind_some, layout_findKey hwf, hfound]
        exact .some ⟨rfl, ht⟩

omit [DecidableEq K] in
theorem WellFormed.nil (p : TableParams K) (fresh : ℕ) :
    WellFormed p ([] : List (Node K V)) fresh where
  nodupRefs := List.nodup_nil
  nodupKeys := List.nodup_nil
  lt_fresh _ h := (List.not_mem_nil h).elim
  inTable _ h := (List.not_mem_nil h).elim

omit [DecidableEq K] in
theorem Represents.clear (ht : Represents p t s) :
    Option.Rel (Represents p) t.clear (some s.clear) := by
  obtain ⟨nodes, fresh, c, cur, rfl, rfl, hwf, hc⟩ := ht.exists_layout
  rw [clear_layout hwf]
  refine .some (represents_layout (.nil p fresh) ?_)
  cases c with
  | indeterminate => exact hc
  | null => exact hc
  | dangling =>
    obtain ⟨r, rfl, hlt, -⟩ := hc
    exact ⟨r, rfl, hlt, List.not_mem_nil⟩
  | index i =>
    obtain ⟨n, hn, -, rfl⟩ := hc.exists_node
    exact ⟨n.ref, rfl, hwf.lt_fresh n hn, List.not_mem_nil⟩

/-! ## Runs -/

omit [DecidableEq K] in
theorem Represents.void {x : Option (HashTable K V)} {y : Option (Entries K V)}
    (h : Option.Rel (Represents p) x y) {R : Type} (r : R) :
    Same p (x.map fun t => (r, t)) (y.map fun s => (r, s)) := by
  cases h with
  | some h => exact .some ⟨rfl, h⟩
  | none => exact .none

omit [DecidableEq K] in
/-- An operation that leaves the table as it is. -/
theorem Represents.read {R R' : Type} (ht : Represents p t s) {x y : Option R} (h : x = y)
    (f : R → R') : Same p (x.map fun a => (f a, t)) (y.map fun a => (f a, s)) := by
  subst h
  cases x with
  | some a => exact .some ⟨rfl, ht⟩
  | none => exact .none

/-- **Every operation is the operation on the list.** -/
theorem Represents.perform (ht : Represents p t s) (op : TableOp K V) :
    Same p (t.perform p op) (s.perform p op) := by
  cases op with
  | gotoFirstElement => exact .some ⟨rfl, ht.gotoFirst⟩
  | gotoLastElement => exact .some ⟨rfl, ht.gotoLast⟩
  | hasCurrentElement => exact ht.read ht.hasCurrent _
  | deleteCurrentElement => exact ht.deleteCurrent.map _
  | getCurrentElement =>
    have hcur : t.getCurrentElement = s.current.map Prod.snd := by
      rw [← ht.current, Option.map_map]; rfl
    have hread := ht.read hcur (TableResult.element (K := K))
    rwa [Option.map_map] at hread
  | getCurrentKey =>
    have hcur : t.getCurrentKey = s.current.map Prod.fst := by
      rw [← ht.current, Option.map_map]; rfl
    have hread := ht.read hcur (TableResult.key (V := V))
    rwa [Option.map_map] at hread
  | gotoElement k => exact (ht.gotoElement k).map _
  | hasElement k => exact ht.read (ht.hasElement k) _
  | gotoNextElement => exact Represents.void ht.gotoNext _
  | gotoPreviousElement => exact Represents.void ht.gotoPrevious _
  | clear => exact Represents.void ht.clear _
  | addElement k elem allocated => exact (ht.add k elem allocated).map _
  | deleteElement k => exact (ht.delete k).map _

end

theorem represents_new : Represents p (HashTable.new : HashTable K V) Entries.new :=
  ⟨[], 0, none, rfl, .nil p 0, rfl, rfl⟩

end

section
variable {K V : Type} [DecidableEq K] {p : TableParams K}
  {tr : List (TableOp K V × TableResult K V)} {t : HashTable K V} {s : Entries K V}

/-- One operation, labelled with what is called and what it returns. -/
def HashTable.Step (p : TableParams K) (t : HashTable K V) (event : TableOp K V × TableResult K V)
    (t' : HashTable K V) : Prop := t.perform p event.1 = some (event.2, t')

/-- The same, on a list of entries. -/
def Entries.Step (p : TableParams K) (s : Entries K V) (event : TableOp K V × TableResult K V)
    (s' : Entries K V) : Prop := s.perform p event.1 = some (event.2, s')

/-- The runs of a hash table, from its construction on. -/
abbrev HashRun (p : TableParams K) (tr : List (TableOp K V × TableResult K V))
    (t : HashTable K V) : Prop := Run (HashTable.Step p) .new tr t

/-- The runs of a list of entries. -/
abbrev EntryRun (p : TableParams K) (tr : List (TableOp K V × TableResult K V))
    (s : Entries K V) : Prop := Run (Entries.Step p) .new tr s

theorem EntryRun.snoc {o : TableOp K V} {r : TableResult K V} {s' : Entries K V}
    (h : EntryRun p tr s) (hs : s.perform p o = some (r, s')) : EntryRun p (tr ++ [(o, r)]) s' :=
  Run.snoc h hs

/-- A trace of a list of entries leaves one list. -/
theorem EntryRun.unique {s' : Entries K V} (h : EntryRun p tr s) (h' : EntryRun p tr s') :
    s = s' := by
  refine Run.unique ?_ h h'
  intro s event s' s'' hs hs'
  have heq := Option.some.inj (Eq.trans (Eq.symm hs) hs')
  exact (Prod.mk.inj heq).2

theorem Represents.step {event : TableOp K V × TableResult K V} {t' : HashTable K V}
    (ht : Represents p t s) (hs : HashTable.Step p t event t') :
    ∃ s', Entries.Step p s event s' ∧ Represents p t' s' := by
  have hop := ht.perform event.1
  rw [show t.perform p event.1 = some (event.2, t') from hs] at hop
  exact hop.exists_right

theorem Represents.step_back {event : TableOp K V × TableResult K V} {s' : Entries K V}
    (ht : Represents p t s) (hs : Entries.Step p s event s') :
    ∃ t', HashTable.Step p t event t' ∧ Represents p t' s' := by
  have hop := ht.perform event.1
  rw [show s.perform p event.1 = some (event.2, s') from hs] at hop
  exact hop.exists_left

theorem HashRun.represents (h : HashRun p tr t) : ∃ s, EntryRun p tr s ∧ Represents p t s :=
  h.simulate represents_new fun _ _ _ _ ht hs => ht.step hs

theorem EntryRun.represents (h : EntryRun p tr s) : ∃ t, HashRun p tr t ∧ Represents p t s :=
  h.simulate (R := fun s t => Represents p t s) represents_new fun _ _ _ _ ht hs => ht.step_back hs

/-- **A hash table is a list of entries**: what can be called, and what it returns, is the same
    over whole runs. -/
theorem hashTable_trace_iff : (∃ t, HashRun p tr t) ↔ ∃ s, EntryRun p tr s := by
  constructor
  · rintro ⟨t, h⟩
    obtain ⟨s, hs, -⟩ := h.represents
    exact ⟨s, hs⟩
  · rintro ⟨s, h⟩
    obtain ⟨t, ht, -⟩ := h.represents
    exact ⟨t, ht⟩

end

end RayionClient
