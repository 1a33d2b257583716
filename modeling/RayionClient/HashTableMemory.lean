/-
  What the operations of a hash table do in memory.

  `findKey_chain` follows a chain, `deleteCurrentElement_eq` and `addElement_eq` say
  which links an operation changes.  On the table that a list of elements makes,
  these are the links that the shorter or longer list has
  (`deleteCurrentElement_layout`, `addElement_layout`, `clear_layout`).
-/
import RayionClient.Entries
import Mathlib.Data.List.Induction
import Mathlib.Data.List.Perm.Subperm
import Mathlib.Order.Basic

namespace RayionClient

open Base

section
variable {K V : Type} {p : TableParams K} {nodes : List (Node K V)} {fresh : ℕ} {n n' : Node K V}
  {r : Ref} {index : ℤ}

/-! ## The elements of a table -/

theorem mem_refs : r ∈ refs nodes ↔ ∃ n ∈ nodes, n.ref = r := List.mem_map

theorem ref_inj (h : (refs nodes).Nodup) (hn : n ∈ nodes) (hn' : n' ∈ nodes)
    (heq : n.ref = n'.ref) : n = n' := List.inj_on_of_nodup_map h hn hn' heq

theorem find?_ref (h : (refs nodes).Nodup) (hn : n ∈ nodes) :
    nodes.find? (·.ref = n.ref) = some n := (find?_key_eq_some_iff h).2 ⟨hn, rfl⟩

theorem cells_of_mem (h : (refs nodes).Nodup) (hn : n ∈ nodes) :
    cells p nodes n.ref = some (cell p nodes n) := by
  rw [cells, find?_ref h hn]; rfl

theorem cells_of_notMem (h : r ∉ refs nodes) : cells p nodes r = none := by
  rw [cells, List.find?_eq_none.2]; · rfl
  intro n hn heq
  exact h (mem_refs.2 ⟨n, hn, by simpa using heq⟩)

theorem cells_ne_none_iff (h : (refs nodes).Nodup) : cells p nodes r ≠ none ↔ r ∈ refs nodes := by
  constructor
  · intro hr
    by_contra hnot
    exact hr (cells_of_notMem hnot)
  · intro hr
    obtain ⟨n, hn, rfl⟩ := mem_refs.1 hr
    rw [cells_of_mem h hn]; simp

theorem bucket_sublist : (bucket p nodes index).Sublist nodes := List.filter_sublist

theorem nodup_bucket (h : (refs nodes).Nodup) : (refs (bucket p nodes index)).Nodup :=
  h.sublist (bucket_sublist.map _)

theorem mem_bucket (h : (refs nodes).Nodup) (hn : n ∈ nodes) :
    n.ref ∈ refs (bucket p nodes index) ↔ p.getIndex n.key = index := by
  rw [mem_refs]
  constructor
  · rintro ⟨n', hn', heq⟩
    rw [bucket, List.mem_filter] at hn'
    rw [← ref_inj h hn'.1 hn heq]
    simpa using hn'.2
  · intro heq
    exact ⟨n, List.mem_filter.2 ⟨hn, by simpa using heq⟩, rfl⟩

theorem mem_of_mem_bucket (h : r ∈ refs (bucket p nodes index)) : r ∈ refs nodes :=
  (bucket_sublist.map Node.ref).subset h

namespace WellFormed

theorem length_le (h : WellFormed p nodes fresh) : nodes.length ≤ fresh := by
  have hsub : refs nodes ⊆ List.range fresh := by
    intro r hr
    obtain ⟨n, hn, rfl⟩ := mem_refs.1 hr
    exact List.mem_range.2 (h.lt_fresh n hn)
  have hlen := (List.subperm_of_subset h.nodupRefs hsub).length_le
  rwa [refs, List.length_map, List.length_range] at hlen

theorem key_inj (h : WellFormed p nodes fresh) (hn : n ∈ nodes) (hn' : n' ∈ nodes)
    (heq : n.key = n'.key) : n = n' := List.inj_on_of_nodup_map h.nodupKeys hn hn' heq

end WellFormed

/-! ## Looking for a key -/

section
variable [DecidableEq K] {k : K}

theorem find?_key_eq_none_iff : nodes.find? (·.key = k) = none ↔ k ∉ keys nodes := by
  rw [List.find?_eq_none, keys, List.mem_map]
  constructor
  · rintro h ⟨n, hn, rfl⟩
    exact h n hn (by simp)
  · intro h n hn hk
    exact h ⟨n, hn, by simpa using hk⟩

/-- The search along a chain, from any of its elements on. -/
theorem findKey_chain (h : (refs nodes).Nodup) (k : K) (index : ℤ) :
    ∀ (l l₂ : List (Node K V)) (fuel : ℕ), bucket p nodes index = l ++ l₂ → l.length ≤ fuel →
      HashTable.findKey (cells p nodes) k fuel (refs l).getLast? =
        some ((l.reverse.find? (·.key = k)).map Node.ref) := by
  intro l
  induction l using List.reverseRecOn with
  | nil =>
    intro l₂ fuel _ _
    cases fuel <;> rfl
  | append_singleton l n ih =>
    intro l₂ fuel hl hfuel
    obtain ⟨fuel, rfl⟩ : ∃ m, fuel = m + 1 := by
      refine ⟨fuel - 1, ?_⟩
      simp at hfuel
      omega
    have hmem : n ∈ bucket p nodes index := by
      rw [hl]; simp
    have hn : n ∈ nodes := bucket_sublist.subset hmem
    have hindex : p.getIndex n.key = index := by
      refine (mem_bucket h hn).1 ?_
      rw [hl, refs]; simp
    have hlast : (refs (l ++ [n])).getLast? = some n.ref := by simp [refs]
    rw [hlast, HashTable.findKey, cells_of_mem h hn]
    by_cases hk : n.key = k
    · simp [cell, hk]
    · -- the next element of the chain is the one before in the bucket
      have hnext : (cell p nodes n).hashnext = (refs l).getLast? := by
        have hsplit : refs (bucket p nodes index) = refs l ++ n.ref :: refs l₂ := by
          rw [hl]; simp [refs]
        have hnot : n.ref ∉ refs l₂ := by
          have hnd : (refs (bucket p nodes index)).Nodup := nodup_bucket h
          rw [hsplit] at hnd
          exact (notMem_of_nodup_split hnd).2
        change prevIn (refs (bucket p nodes (p.getIndex n.key))) n.ref = _
        rw [hindex, hsplit, prevIn_append_cons hnot]
      have hgo := ih (n :: l₂) fuel (by rw [hl]; simp) (by simpa using hfuel)
      simp only [Option.bind_eq_bind, Option.bind_some, hnext]
      rw [if_neg (by simpa [cell] using hk), hgo, List.reverse_append, List.reverse_singleton,
        List.singleton_append, List.find?_cons_of_neg (by simpa using hk)]

/-- **The search finds the element with the key.** -/
theorem WellFormed.findKey (h : WellFormed p nodes fresh) (k : K) :
    HashTable.findKey (cells p nodes) k fresh (refs (bucket p nodes (p.getIndex k))).getLast? =
      some ((nodes.find? (·.key = k)).map Node.ref) := by
  have hfuel : (bucket p nodes (p.getIndex k)).length ≤ fresh :=
    Nat.le_trans bucket_sublist.length_le h.length_le
  have hkeys : ((bucket p nodes (p.getIndex k)).reverse.map Node.key).Nodup := by
    rw [List.map_reverse, List.nodup_reverse]
    exact h.nodupKeys.sublist (bucket_sublist.map _)
  rw [findKey_chain h.nodupRefs k (p.getIndex k) _ [] fresh (by simp) hfuel]
  congr 2
  ext n
  rw [find?_key_eq_some_iff hkeys, find?_key_eq_some_iff h.nodupKeys, List.mem_reverse, bucket,
    List.mem_filter]
  constructor
  · rintro ⟨⟨hn, -⟩, hk⟩
    exact ⟨hn, hk⟩
  · rintro ⟨hn, rfl⟩
    exact ⟨⟨hn, by simp⟩, rfl⟩

end

/-! ## Unlinking an element -/

namespace HashTable
variable {t : HashTable K V} {x : HashElement K V} {cur : Ref}

theorem modifyIf_eq {e : Option Ref} {f : HashElement K V → HashElement K V}
    (h : ∀ q, e = some q → t.heap q ≠ none) : t.modifyIf e f = some { t with
      heap := fun q => (t.heap q).map fun y => if e = some q then f y else y } := by
  cases e with
  | none => simp [modifyIf]
  | some e =>
    obtain ⟨x, hx⟩ := Option.ne_none_iff_exists'.1 (h e rfl)
    rw [modifyIf, modify, hx, Option.map_some]
    congr 2
    funext q
    by_cases hq : q = e
    · subst hq
      simp [hx]
    · simp [Function.update_of_ne hq, Ne.symm hq]

theorem modify_eq {e : Ref} {f : HashElement K V → HashElement K V} (h : t.heap e ≠ none) :
    t.modify e f = some { t with
      heap := fun q => (t.heap q).map fun y => if e = q then f y else y } := by
  have hif : t.modifyIf (some e) f = _ := modifyIf_eq (by rintro q ⟨⟩; exact h)
  simpa only [modifyIf, Option.some.injEq] using hif

/-- `relinkBucket` changes the two neighbours in the chain, and the head. -/
theorem relinkBucket_eq (hx : t.heap cur = some x) (hindex : InTable p x.hashindex)
    (hprev : ∀ q, x.hashprev = some q → t.heap q ≠ none)
    (hnext : ∀ q, x.hashnext = some q → t.heap q ≠ none) :
    t.relinkBucket p cur = some { t with
      heap := fun q => (t.heap q).map fun y => { y with
        hashnext := if x.hashprev = some q then x.hashnext else y.hashnext
        hashprev := if x.hashnext = some q then x.hashprev else y.hashprev }
      table := if x.hashprev = none then Function.update t.table x.hashindex x.hashnext
        else t.table } := by
  rw [relinkBucket, hx]
  cases hp : x.hashprev with
  | none =>
    simp only [Option.bind_eq_bind, Option.bind_some, hp, setTable, if_pos hindex]
    rw [modifyIf_eq (by exact hnext)]
    congr 2
    funext q
    congr 1
    funext y
    by_cases hq : x.hashnext = some q <;> simp [hq]
  | some a =>
    have ha := hprev a hp
    simp only [Option.bind_eq_bind, Option.bind_some, hp, modify_eq ha]
    rw [modifyIf_eq fun q hq => by simpa using hnext q hq]
    simp only [Option.map_map]
    congr 2
    funext q
    congr 1
    funext y
    by_cases hq : a = q <;> by_cases hq' : x.hashnext = some q <;> simp [hq, hq']

/-- `relinkList` changes the two neighbours in the list, and its ends. -/
theorem relinkList_eq (hx : t.heap cur = some x)
    (hprev : ∀ q, x.listprev = some q → t.heap q ≠ none)
    (hnext : ∀ q, x.listnext = some q → t.heap q ≠ none) :
    t.relinkList cur = some { t with
      heap := fun q => (t.heap q).map fun y => { y with
        listnext := if x.listprev = some q then x.listnext else y.listnext
        listprev := if x.listnext = some q then x.listprev else y.listprev }
      firsthashelem := if x.listprev = none then x.listnext else t.firsthashelem
      lasthashelem := if x.listnext = none then x.listprev else t.lasthashelem } := by
  rw [relinkList, hx]
  cases hp : x.listprev with
  | none =>
    simp only [Option.bind_eq_bind, Option.bind_some, hp]
    cases hn : x.listnext with
    | none => simp
    | some b =>
      simp only []
      rw [modify_eq (by exact hnext b hn)]
      congr 2
      funext q
      congr 1
      funext y
      by_cases hq : b = q <;> simp [hq]
  | some a =>
    have ha := hprev a hp
    simp only [Option.bind_eq_bind, Option.bind_some, hp, modify_eq ha]
    cases hn : x.listnext with
    | none =>
      simp only []
      congr 2
      funext q
      congr 1
      funext y
      by_cases hq : a = q <;> simp [hq]
    | some b =>
      simp only []
      rw [modify_eq (by simpa using hnext b hn)]
      simp only [Option.map_map]
      congr 2
      funext q
      congr 1
      funext y
      by_cases hq : a = q <;> by_cases hq' : b = q <;> simp [hq, hq']

/-- **What `DeleteCurrentElement` changes.** -/
theorem deleteCurrentElement_eq (hcur : t.curhashelem = some (some cur)) (hx : t.heap cur = some x)
    (hindex : InTable p x.hashindex) (hhashprev : ∀ q, x.hashprev = some q → t.heap q ≠ none)
    (hhashnext : ∀ q, x.hashnext = some q → t.heap q ≠ none)
    (hlistprev : ∀ q, x.listprev = some q → t.heap q ≠ none)
    (hlistnext : ∀ q, x.listnext = some q → t.heap q ≠ none) :
    t.deleteCurrentElement p = some (0, { t with
      heap := fun q => if q = cur then none else (t.heap q).map fun y => { y with
        hashnext := if x.hashprev = some q then x.hashnext else y.hashnext
        hashprev := if x.hashnext = some q then x.hashprev else y.hashprev
        listnext := if x.listprev = some q then x.listnext else y.listnext
        listprev := if x.listnext = some q then x.listprev else y.listprev }
      table := if x.hashprev = none then Function.update t.table x.hashindex x.hashnext
        else t.table
      firsthashelem := if x.listprev = none then x.listnext else t.firsthashelem
      lasthashelem := if x.listnext = none then x.listprev else t.lasthashelem
      curhashelem := some x.listnext }) := by
  rw [deleteCurrentElement, hcur]
  simp only [Option.bind_eq_bind, Option.bind_some]
  rw [relinkBucket_eq hx hindex hhashprev hhashnext]
  simp only [Option.bind_some, hx, Option.map_some]
  -- the element has the same links in the list as before
  rw [relinkList_eq (x := { x with
      hashnext := if x.hashprev = some cur then x.hashnext else x.hashnext
      hashprev := if x.hashnext = some cur then x.hashprev else x.hashprev })
    (by simp [hx]) (by simpa using hlistprev) (by simpa using hlistnext)]
  simp only [Option.bind_some, delete, hx, Option.map_some, Option.map_map, Option.pure_def]
  congr 3
  funext q
  by_cases hq : q = cur
  · subst hq
    simp
  · rw [Function.update_of_ne hq, if_neg hq]
    congr 1

end HashTable

/-! ## Taking an element out -/

/-- The elements without the one at an address. -/
def without (nodes : List (Node K V)) (r : Ref) : List (Node K V) := nodes.filter (·.ref ≠ r)

theorem refs_without : refs (without nodes r) = (refs nodes).filter (· ≠ r) := by
  rw [refs, without, refs, List.filter_map]; rfl

theorem without_of_notMem (h : r ∉ refs nodes) : without nodes r = nodes := by
  refine List.filter_eq_self.2 ?_
  intro n hn
  simpa using fun hr : n.ref = r => h (mem_refs.2 ⟨n, hn, hr⟩)

theorem refs_bucket_without :
    refs (bucket p (without nodes r) index) = (refs (bucket p nodes index)).filter (· ≠ r) := by
  rw [← refs_without, bucket, without, without, bucket, List.filter_filter, List.filter_filter]
  simp only [Bool.and_comm]

/-- The links of a chain, in the direction of the bucket. -/
theorem nextIn_bucket_without (h : WellFormed p nodes fresh) (hn : n ∈ nodes) (hn' : n' ∈ nodes)
    (hne : n'.ref ≠ n.ref) :
    nextIn (refs (bucket p (without nodes n.ref) (p.getIndex n'.key))) n'.ref =
      if prevIn (refs (bucket p nodes (p.getIndex n.key))) n.ref = some n'.ref then
        nextIn (refs (bucket p nodes (p.getIndex n.key))) n.ref
      else nextIn (refs (bucket p nodes (p.getIndex n'.key))) n'.ref := by
  have hnd : ∀ index, (refs (bucket p nodes index)).Nodup := fun index => nodup_bucket h.nodupRefs
  rw [refs_bucket_without, nextIn_filter_ne (hnd _) hne]
  by_cases hindex : p.getIndex n'.key = p.getIndex n.key
  · simp only [hindex, nextIn_eq_some_iff_prevIn (hnd _)]
  · -- different buckets
    have hother : nextIn (refs (bucket p nodes (p.getIndex n'.key))) n'.ref ≠ some n.ref :=
      fun hnext => hindex ((mem_bucket h.nodupRefs hn).1 (mem_of_nextIn hnext)).symm
    have hother' : prevIn (refs (bucket p nodes (p.getIndex n.key))) n.ref ≠ some n'.ref :=
      fun hprev => hindex ((mem_bucket h.nodupRefs hn').1 (mem_of_prevIn hprev))
    rw [if_neg hother, if_neg hother']

theorem prevIn_bucket_without (h : WellFormed p nodes fresh) (hn : n ∈ nodes) (hn' : n' ∈ nodes)
    (hne : n'.ref ≠ n.ref) :
    prevIn (refs (bucket p (without nodes n.ref) (p.getIndex n'.key))) n'.ref =
      if nextIn (refs (bucket p nodes (p.getIndex n.key))) n.ref = some n'.ref then
        prevIn (refs (bucket p nodes (p.getIndex n.key))) n.ref
      else prevIn (refs (bucket p nodes (p.getIndex n'.key))) n'.ref := by
  have hnd : ∀ index, (refs (bucket p nodes index)).Nodup := fun index => nodup_bucket h.nodupRefs
  rw [refs_bucket_without, prevIn_filter_ne (hnd _) hne]
  by_cases hindex : p.getIndex n'.key = p.getIndex n.key
  · simp only [hindex, nextIn_eq_some_iff_prevIn (hnd _)]
  · have hother : prevIn (refs (bucket p nodes (p.getIndex n'.key))) n'.ref ≠ some n.ref :=
      fun hprev => hindex ((mem_bucket h.nodupRefs hn).1 (mem_of_prevIn hprev)).symm
    have hother' : nextIn (refs (bucket p nodes (p.getIndex n.key))) n.ref ≠ some n'.ref :=
      fun hnext => hindex ((mem_bucket h.nodupRefs hn').1 (mem_of_nextIn hnext))
    rw [if_neg hother, if_neg hother']

theorem cell_without (h : WellFormed p nodes fresh) (hn : n ∈ nodes) (hn' : n' ∈ nodes)
    (hne : n'.ref ≠ n.ref) : cell p (without nodes n.ref) n' = { cell p nodes n' with
      hashnext := if (cell p nodes n).hashprev = some n'.ref then (cell p nodes n).hashnext
        else (cell p nodes n').hashnext
      hashprev := if (cell p nodes n).hashnext = some n'.ref then (cell p nodes n).hashprev
        else (cell p nodes n').hashprev
      listnext := if (cell p nodes n).listprev = some n'.ref then (cell p nodes n).listnext
        else (cell p nodes n').listnext
      listprev := if (cell p nodes n).listnext = some n'.ref then (cell p nodes n).listprev
        else (cell p nodes n').listprev } := by
  have hprev : prevIn (refs (without nodes n.ref)) n'.ref =
      if nextIn (refs nodes) n.ref = some n'.ref then prevIn (refs nodes) n.ref
      else prevIn (refs nodes) n'.ref := by
    rw [refs_without, prevIn_filter_ne h.nodupRefs hne]
    simp only [nextIn_eq_some_iff_prevIn h.nodupRefs]
  have hnext : nextIn (refs (without nodes n.ref)) n'.ref =
      if prevIn (refs nodes) n.ref = some n'.ref then nextIn (refs nodes) n.ref
      else nextIn (refs nodes) n'.ref := by
    rw [refs_without, nextIn_filter_ne h.nodupRefs hne]
    simp only [nextIn_eq_some_iff_prevIn h.nodupRefs]
  exact HashElement.ext rfl rfl rfl (nextIn_bucket_without h hn hn' hne)
    (prevIn_bucket_without h hn hn' hne) hprev hnext

theorem nodup_without (h : (refs nodes).Nodup) : (refs (without nodes r)).Nodup := by
  rw [refs_without]; exact h.filter _

theorem WellFormed.without (h : WellFormed p nodes fresh) (r : Ref) :
    WellFormed p (without nodes r) fresh where
  nodupRefs := nodup_without h.nodupRefs
  nodupKeys := h.nodupKeys.sublist (List.filter_sublist.map _)
  lt_fresh n hn := h.lt_fresh n (List.mem_of_mem_filter hn)
  inTable n hn := h.inTable n (List.mem_of_mem_filter hn)

theorem cells_without (h : WellFormed p nodes fresh) (hn : n ∈ nodes) :
    cells p (without nodes n.ref) = fun q => if q = n.ref then none else
      (cells p nodes q).map fun y => { y with
        hashnext := if (cell p nodes n).hashprev = some q then (cell p nodes n).hashnext
          else y.hashnext
        hashprev := if (cell p nodes n).hashnext = some q then (cell p nodes n).hashprev
          else y.hashprev
        listnext := if (cell p nodes n).listprev = some q then (cell p nodes n).listnext
          else y.listnext
        listprev := if (cell p nodes n).listnext = some q then (cell p nodes n).listprev
          else y.listprev } := by
  funext q
  by_cases hq : q = n.ref
  · rw [if_pos hq, cells_of_notMem]
    rw [refs_without, hq]; simp
  · rw [if_neg hq]
    by_cases hmem : q ∈ refs nodes
    · obtain ⟨n', hn', rfl⟩ := mem_refs.1 hmem
      have hin : n' ∈ without nodes n.ref := List.mem_filter.2 ⟨hn', by simpa using hq⟩
      rw [cells_of_mem (nodup_without h.nodupRefs) hin, cells_of_mem h.nodupRefs hn',
        Option.map_some, cell_without h hn hn' hq]
    · rw [cells_of_notMem hmem, cells_of_notMem]; · rfl
      rw [refs_without]
      exact fun hfilter => hmem (List.mem_of_mem_filter hfilter)

/-- The heads of the chains. -/
theorem table_without (h : WellFormed p nodes fresh) (hn : n ∈ nodes) :
    (fun index => (refs (bucket p (without nodes n.ref) index)).getLast?) =
      if (cell p nodes n).hashprev = none then
        Function.update (fun index => (refs (bucket p nodes index)).getLast?)
          (p.getIndex n.key) (cell p nodes n).hashnext
      else fun index => (refs (bucket p nodes index)).getLast? := by
  have hlast : (cell p nodes n).hashprev = none ↔
      (refs (bucket p nodes (p.getIndex n.key))).getLast? = some n.ref :=
    nextIn_eq_none_iff (nodup_bucket h.nodupRefs) ((mem_bucket h.nodupRefs hn).2 rfl)
  funext index
  rw [refs_bucket_without, getLast?_filter_ne (nodup_bucket h.nodupRefs)]
  by_cases hindex : index = p.getIndex n.key
  · subst hindex
    by_cases hprev : (cell p nodes n).hashprev = none
    · rw [if_pos hprev, if_pos (hlast.1 hprev), Function.update_self]; rfl
    · rw [if_neg hprev, if_neg (mt hlast.2 hprev)]
  · have hother : (refs (bucket p nodes index)).getLast? ≠ some n.ref := fun hl =>
      hindex ((mem_bucket h.nodupRefs hn).1 (List.mem_of_getLast? hl)).symm
    rw [if_neg hother]
    split_ifs
    · rw [Function.update_of_ne hindex]
    · rfl

/-- **`DeleteCurrentElement` in memory.** -/
theorem deleteCurrentElement_layout (h : WellFormed p nodes fresh) (hn : n ∈ nodes) :
    (layout p nodes fresh (some (some n.ref))).deleteCurrentElement p =
      some (0, layout p (without nodes n.ref) fresh (some (nextIn (refs nodes) n.ref))) := by
  have hx : (layout p nodes fresh (some (some n.ref))).heap n.ref = some (cell p nodes n) :=
    cells_of_mem h.nodupRefs hn
  have hmem : ∀ q, q ∈ refs nodes → (layout p nodes fresh (some (some n.ref))).heap q ≠ none :=
    fun q hq => (cells_ne_none_iff h.nodupRefs).2 hq
  have hbucket : ∀ {index q}, q ∈ refs (bucket p nodes index) → q ∈ refs nodes :=
    fun hq => mem_of_mem_bucket hq
  rw [HashTable.deleteCurrentElement_eq rfl hx (h.inTable n hn)
    (fun q hq => hmem q (hbucket (mem_of_nextIn hq)))
    (fun q hq => hmem q (hbucket (mem_of_prevIn hq)))
    (fun q hq => hmem q (mem_of_prevIn hq)) (fun q hq => hmem q (mem_of_nextIn hq))]
  have hfirst : (cell p nodes n).listprev = none ↔ (refs nodes).head? = some n.ref :=
    prevIn_eq_none_iff h.nodupRefs (mem_refs.2 ⟨n, hn, rfl⟩)
  have hlast : (cell p nodes n).listnext = none ↔ (refs nodes).getLast? = some n.ref :=
    nextIn_eq_none_iff h.nodupRefs (mem_refs.2 ⟨n, hn, rfl⟩)
  simp only [layout, cells_without h hn, table_without h hn, refs_without,
    head?_filter_ne h.nodupRefs, getLast?_filter_ne h.nodupRefs, hfirst, hlast]
  rfl

/-! ## Adding an element -/

namespace HashTable
variable {t : HashTable K V}

/-- The new element is put behind the last one. -/
theorem linkList_eq {e : Ref} {x : HashElement K V} (hx : t.heap e = some x)
    (hprev : x.listprev = none) (hlast : ∀ q, t.lasthashelem = some q → t.heap q ≠ none)
    (hempty : t.firsthashelem = none ↔ t.lasthashelem = none) :
    t.linkList e = some { t with
      heap := fun q => (t.heap q).map fun y => { y with
        listnext := if t.lasthashelem = some q then some e else y.listnext
        listprev := if e = q then t.lasthashelem else y.listprev }
      firsthashelem := if t.firsthashelem = none then some e else t.firsthashelem
      lasthashelem := some e } := by
  rw [linkList]
  cases hl : t.lasthashelem with
  | none =>
    rw [if_pos (hempty.2 hl), if_pos (hempty.2 hl)]
    congr 2
    funext q
    by_cases hq : e = q
    · subst hq
      obtain ⟨i, k, v, hp, hn, lp, ln⟩ := x
      obtain rfl : lp = none := hprev
      simp [hx]
    · simp [hq]
  | some last =>
    have hne : t.firsthashelem ≠ none := fun h0 => by simp [hempty.1 h0] at hl
    rw [if_neg hne, if_neg hne]
    simp only [Option.bind_eq_bind, Option.bind_some, modify_eq (hlast last hl)]
    rw [modify_eq (by simp [hx])]
    simp only [Option.bind_some, Option.map_map, Option.pure_def]
    congr 2
    funext q
    congr 1
    funext y
    by_cases hq : e = q <;> by_cases hq' : last = q <;> simp [hq, hq']

/-- **What `AddElement` changes**, when there is no such key and there is memory. -/
theorem addElement_eq [DecidableEq K] {k : K} {elem : V} (hindex : InTable p (p.getIndex k))
    (hfind : findKey t.heap k t.fresh (t.table (p.getIndex k)) = some none)
    (hfresh : t.heap t.fresh = none)
    (htable : ∀ q, t.table (p.getIndex k) = some q → t.heap q ≠ none)
    (hlast : ∀ q, t.lasthashelem = some q → t.heap q ≠ none)
    (hempty : t.firsthashelem = none ↔ t.lasthashelem = none) :
    t.addElement p k elem true = some (0, { t with
      heap := fun q => if q = t.fresh then
          some ⟨p.getIndex k, k, elem, none, t.table (p.getIndex k), t.lasthashelem, none⟩
        else (t.heap q).map fun y => { y with
          hashprev := if t.table (p.getIndex k) = some q then some t.fresh else y.hashprev
          listnext := if t.lasthashelem = some q then some t.fresh else y.listnext }
      fresh := t.fresh + 1
      table := Function.update t.table (p.getIndex k) (some t.fresh)
      firsthashelem := if t.firsthashelem = none then some t.fresh else t.firsthashelem
      lasthashelem := some t.fresh }) := by
  have hne : ∀ q, t.heap q ≠ none → q ≠ t.fresh := by
    rintro q hq rfl
    exact hq hfresh
  rw [addElement, if_neg (by have := hindex.2; omega)]
  simp only [getTable, if_pos hindex, Option.bind_eq_bind, Option.bind_some, hfind, ne_eq,
    not_true_eq_false, if_false, Bool.not_true, Bool.false_eq_true, setTable]
  rw [modify_eq (by simp)]
  simp only [Option.bind_some]
  rw [modifyIf_eq (by
    intro q hq
    have hq' := htable q hq
    simpa [Function.update_of_ne (hne q hq')] using hq')]
  simp only [Option.bind_some, Option.map_map]
  rw [linkList_eq (x := ⟨p.getIndex k, k, elem, none, t.table (p.getIndex k), none, none⟩)]
  · simp only [Option.bind_some, Option.map_map, Option.pure_def]
    congr 3
    funext q
    by_cases hq : q = t.fresh
    · subst hq
      have htable' : t.table (p.getIndex k) ≠ some t.fresh := fun h0 => hne _ (htable _ h0) rfl
      have hlast' : t.lasthashelem ≠ some t.fresh := fun h0 => hne _ (hlast _ h0) rfl
      simp [htable', hlast']
    · rw [Function.update_of_ne hq, if_neg hq]
      congr 1
      funext y
      by_cases hb : t.table (p.getIndex k) = some q <;> simp [hb, Ne.symm hq]
  · have htable' : t.table (p.getIndex k) ≠ some t.fresh := fun h0 => hne _ (htable _ h0) rfl
    simp [htable']
  · rfl
  · intro q hq
    have hq' := hlast q hq
    simpa [Function.update_of_ne (hne q hq')] using hq'
  · exact hempty

end HashTable

theorem refs_concat : refs (nodes ++ [n]) = refs nodes ++ [n.ref] := by
  rw [refs, List.map_append]; rfl

theorem refs_bucket_concat : refs (bucket p (nodes ++ [n]) index) =
    refs (bucket p nodes index) ++ if p.getIndex n.key = index then [n.ref] else [] := by
  rw [bucket, List.filter_append, refs, List.map_append]
  by_cases hindex : p.getIndex n.key = index
  · rw [if_pos hindex, List.filter_singleton, decide_eq_true hindex]; rfl
  · rw [if_neg hindex, List.filter_singleton, decide_eq_false hindex]; rfl

theorem WellFormed.notMem (h : WellFormed p nodes fresh) : fresh ∉ refs nodes := by
  intro hmem
  obtain ⟨n, hn, heq⟩ := mem_refs.1 hmem
  exact Nat.lt_irrefl _ (heq ▸ h.lt_fresh n hn)

theorem WellFormed.concat (h : WellFormed p nodes fresh) {k : K} (elem : V) (hk : k ∉ keys nodes)
    (hindex : HashTable.InTable p (p.getIndex k)) :
    WellFormed p (nodes ++ [⟨fresh, k, elem⟩]) (fresh + 1) where
  nodupRefs := by
    rw [refs_concat, ← List.concat_eq_append, List.nodup_concat]
    exact ⟨h.notMem, h.nodupRefs⟩
  nodupKeys := by
    rw [keys, List.map_append, List.map_singleton, ← List.concat_eq_append, List.nodup_concat]
    exact ⟨hk, h.nodupKeys⟩
  lt_fresh n hn := by
    rcases List.mem_append.1 hn with hn | hn
    · exact Nat.lt_succ_of_lt (h.lt_fresh n hn)
    · rw [List.mem_singleton.1 hn]; exact Nat.lt_succ_self _
  inTable n hn := by
    rcases List.mem_append.1 hn with hn | hn
    · exact h.inTable n hn
    · rw [List.mem_singleton.1 hn]; exact hindex

/-- The new element. -/
theorem cell_concat_self (h : WellFormed p nodes fresh) {k : K} {elem : V} :
    cell p (nodes ++ [⟨fresh, k, elem⟩]) ⟨fresh, k, elem⟩ =
      ⟨p.getIndex k, k, elem, none, (refs (bucket p nodes (p.getIndex k))).getLast?,
        (refs nodes).getLast?, none⟩ := by
  have hnot := h.notMem
  have hnot' : fresh ∉ refs (bucket p nodes (p.getIndex k)) := fun hm => hnot (mem_of_mem_bucket hm)
  refine HashElement.ext rfl rfl rfl ?_ ?_ ?_ ?_
  · change nextIn (refs (bucket p _ (p.getIndex k))) fresh = none
    rw [refs_bucket_concat, if_pos rfl, nextIn_append_cons hnot']; rfl
  · change prevIn (refs (bucket p _ (p.getIndex k))) fresh = _
    rw [refs_bucket_concat, if_pos rfl, prevIn_concat, if_pos rfl]
  · change prevIn (refs _) fresh = _
    rw [refs_concat, prevIn_concat, if_pos rfl]
  · change nextIn (refs _) fresh = none
    rw [refs_concat, nextIn_append_cons hnot]; rfl

theorem cell_concat (h : WellFormed p nodes fresh) {k : K} {elem : V} (hn : n ∈ nodes) :
    cell p (nodes ++ [⟨fresh, k, elem⟩]) n = { cell p nodes n with
      hashprev := if (refs (bucket p nodes (p.getIndex k))).getLast? = some n.ref then some fresh
        else (cell p nodes n).hashprev
      listnext := if (refs nodes).getLast? = some n.ref then some fresh
        else (cell p nodes n).listnext } := by
  have hne : fresh ≠ n.ref := fun h0 => h.notMem (mem_refs.2 ⟨n, hn, h0.symm⟩)
  have hnot : ∀ {index}, fresh ∉ refs (bucket p nodes index) :=
    fun hm => h.notMem (mem_of_mem_bucket hm)
  have hnd : ∀ index, (refs (bucket p nodes index)).Nodup := fun index => nodup_bucket h.nodupRefs
  have hindex : (refs (bucket p nodes (p.getIndex k))).getLast? = some n.ref →
      p.getIndex k = p.getIndex n.key := fun hl =>
    ((mem_bucket h.nodupRefs hn).1 (List.mem_of_getLast? hl)).symm
  refine HashElement.ext rfl rfl rfl ?_ ?_ ?_ ?_
  · change nextIn (refs (bucket p _ (p.getIndex n.key))) n.ref = if _ then _ else
      nextIn (refs (bucket p nodes (p.getIndex n.key))) n.ref
    rw [refs_bucket_concat]
    by_cases heq : p.getIndex k = p.getIndex n.key
    · rw [if_pos heq, nextIn_concat (hnd _) hnot, heq]
    · rw [if_neg heq, List.append_nil, if_neg (mt hindex heq)]
  · change prevIn (refs (bucket p _ (p.getIndex n.key))) n.ref =
      prevIn (refs (bucket p nodes (p.getIndex n.key))) n.ref
    rw [refs_bucket_concat]
    by_cases heq : p.getIndex k = p.getIndex n.key
    · rw [if_pos heq, prevIn_concat, if_neg hne]
    · rw [if_neg heq, List.append_nil]
  · change prevIn (refs _) n.ref = prevIn (refs nodes) n.ref
    rw [refs_concat, prevIn_concat, if_neg hne]
  · change nextIn (refs _) n.ref = if _ then _ else nextIn (refs nodes) n.ref
    rw [refs_concat, nextIn_concat h.nodupRefs h.notMem]

theorem cells_concat (h : WellFormed p nodes fresh) {k : K} {elem : V} (hk : k ∉ keys nodes)
    (hindex : HashTable.InTable p (p.getIndex k)) :
    cells p (nodes ++ [⟨fresh, k, elem⟩]) = fun q => if q = fresh then
        some ⟨p.getIndex k, k, elem, none, (refs (bucket p nodes (p.getIndex k))).getLast?,
          (refs nodes).getLast?, none⟩
      else (cells p nodes q).map fun y => { y with
        hashprev := if (refs (bucket p nodes (p.getIndex k))).getLast? = some q then some fresh
          else y.hashprev
        listnext := if (refs nodes).getLast? = some q then some fresh else y.listnext } := by
  have hwf := h.concat elem hk hindex
  funext q
  by_cases hq : q = fresh
  · subst hq
    have hin : (⟨q, k, elem⟩ : Node K V) ∈ nodes ++ [⟨q, k, elem⟩] := by simp
    rw [if_pos rfl, ← cell_concat_self h]; exact cells_of_mem hwf.nodupRefs hin
  · rw [if_neg hq]
    by_cases hmem : q ∈ refs nodes
    · obtain ⟨n, hn, rfl⟩ := mem_refs.1 hmem
      rw [cells_of_mem hwf.nodupRefs (List.mem_append_left _ hn), cells_of_mem h.nodupRefs hn,
        Option.map_some, cell_concat h hn]
    · rw [cells_of_notMem hmem, cells_of_notMem]; · rfl
      rw [refs_concat, List.mem_append, List.mem_singleton]
      exact fun hor => hor.elim hmem hq

theorem table_concat {k : K} {elem : V} :
    (fun index => (refs (bucket p (nodes ++ [⟨fresh, k, elem⟩]) index)).getLast?) =
      Function.update (fun index => (refs (bucket p nodes index)).getLast?) (p.getIndex k)
        (some fresh) := by
  funext index
  rw [refs_bucket_concat]
  by_cases hindex : p.getIndex k = index
  · subst hindex
    rw [if_pos rfl, List.getLast?_concat, Function.update_self]
  · rw [if_neg hindex, List.append_nil, Function.update_of_ne (Ne.symm hindex)]

/-- **`AddElement` in memory.** -/
theorem addElement_layout [DecidableEq K] (h : WellFormed p nodes fresh) {k : K} (elem : V)
    (hk : k ∉ keys nodes) (hindex : HashTable.InTable p (p.getIndex k))
    (cur : Option (Option Ref)) :
    (layout p nodes fresh cur).addElement p k elem true =
      some (0, layout p (nodes ++ [⟨fresh, k, elem⟩]) (fresh + 1) cur) := by
  have hwf := h.concat elem hk hindex
  have hmem : ∀ q, q ∈ refs nodes → (layout p nodes fresh cur).heap q ≠ none :=
    fun q hq => (cells_ne_none_iff h.nodupRefs).2 hq
  rw [HashTable.addElement_eq hindex
    ((h.findKey k).trans (by rw [find?_key_eq_none_iff.2 hk]; rfl))
    (cells_of_notMem h.notMem)
    (fun q hq => hmem q (mem_of_mem_bucket (List.mem_of_getLast? hq)))
    (fun q hq => hmem q (List.mem_of_getLast? hq)) (by simp [layout])]
  have hfirst : (refs nodes ++ [fresh]).head? =
      if (refs nodes).head? = none then some fresh else (refs nodes).head? := by
    cases refs nodes <;> rfl
  simp only [layout, cells_concat h hk hindex, table_concat, refs_concat, hfirst,
    List.getLast?_concat]
  rfl

/-! ## Deleting all elements -/

/-- The loop of `Clear`, from any element of the list on. -/
theorem deleteAll_cells (h : (refs nodes).Nodup) : ∀ (l₂ l₁ : List (Node K V)) (fuel : ℕ)
    (heap : Ref → Option (HashElement K V)), nodes = l₁ ++ l₂ → l₂.length ≤ fuel →
      (heap = fun q => if q ∈ refs l₁ then none else cells p nodes q) →
      HashTable.deleteAll fuel (refs l₂).head? heap = some fun _ => none := by
  intro l₂
  induction l₂ with
  | nil =>
    intro l₁ fuel heap hl _ hheap
    have hnone : heap = fun _ => none := by
      rw [hheap]
      funext q
      split_ifs with hq
      · rfl
      · rw [List.append_nil] at hl
        exact cells_of_notMem (hl ▸ hq)
    rw [hnone]
    cases fuel <;> rfl
  | cons n l₂ ih =>
    intro l₁ fuel heap hl hfuel hheap
    obtain ⟨fuel, rfl⟩ : ∃ m, fuel = m + 1 := by
      refine ⟨fuel - 1, ?_⟩
      simp at hfuel
      omega
    have hn : n ∈ nodes := by
      rw [hl]; simp
    have hsplit : refs nodes = refs l₁ ++ n.ref :: refs l₂ := by
      rw [hl]; simp [refs]
    have hnot := notMem_of_nodup_split (hsplit ▸ h)
    have hx : heap n.ref = some (cell p nodes n) := by
      rw [hheap]
      simp only [if_neg hnot.1]
      exact cells_of_mem h hn
    have hnext : (cell p nodes n).listnext = (refs l₂).head? := by
      change nextIn (refs nodes) n.ref = _
      rw [hsplit, nextIn_append_cons hnot.1]
    have hhead : (refs (n :: l₂)).head? = some n.ref := rfl
    rw [hhead, HashTable.deleteAll, hx]
    simp only [Option.bind_eq_bind, Option.bind_some, hnext]
    refine ih (l₁ ++ [n]) fuel _ (by rw [hl]; simp) (by simpa using hfuel) ?_
    funext q
    rw [refs_concat]
    by_cases hq : q = n.ref
    · subst hq
      simp
    · simp [hheap, hq]

theorem clear_layout (h : WellFormed p nodes fresh) (cur : Option (Option Ref)) :
    (layout p nodes fresh cur).clear = some (layout p [] fresh cur) := by
  have hall := deleteAll_cells (p := p) h.nodupRefs nodes [] fresh (cells p nodes) rfl h.length_le
    (by simp [refs])
  simp only [HashTable.clear, layout, hall, Option.bind_eq_bind, Option.bind_some]
  rfl

end

end RayionClient
