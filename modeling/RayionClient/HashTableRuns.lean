/-
  What holds of a hash table after any calls.

  `HashRun.linked`: the links are those of one list through all elements and of one
  chain for each bucket, and nothing else is on the heap.  `HashRun.visitsAll`: a
  loop from the first element on meets every entry once, in the order of insertion,
  also when it deletes entries.  `HashRun.isMap`: the table is the map that the
  successful calls describe.  `HashRun.defined`: a caller that asks
  `HasCurrentElement` before it uses the current element does nothing undefined.
-/
import RayionClient.HashTableRefinement
import RayionClient.SessionTables

namespace RayionClient

open Base

/-- Four sources, two of them of one bucket; one leaves as the current one, and one by its key. -/
def sourceCalls : List (TableOp UInt32 ℕ × TableResult UInt32 ℕ) :=
  [(.addElement 7 1 true, .status 0), (.addElement 8324 2 true, .status 0),
    (.addElement 7 3 true, .status (-9)), (.addElement 5 4 true, .status 0),
    (.addElement 9 6 true, .status 0), (.gotoElement 5, .status 0),
    (.deleteCurrentElement, .status 0), (.deleteElement 7, .status 0)]

theorem entryRun_sourceCalls :
    EntryRun sourcelist sourceCalls ⟨[(8324, 2), (9, 6)], .index 0⟩ := by
  have h₁ : EntryRun sourcelist [(.addElement 7 1 true, .status 0)] ⟨[(7, 1)], .indeterminate⟩ :=
    Run.start.snoc rfl
  have h₂ : EntryRun sourcelist _ ⟨[(7, 1), (8324, 2)], .indeterminate⟩ :=
    EntryRun.snoc h₁ (o := .addElement 8324 2 true) (r := .status 0) rfl
  have h₃ : EntryRun sourcelist _ ⟨[(7, 1), (8324, 2)], .indeterminate⟩ :=
    EntryRun.snoc h₂ (o := .addElement 7 3 true) (r := .status (-9)) rfl
  have h₄ : EntryRun sourcelist _ ⟨[(7, 1), (8324, 2), (5, 4)], .indeterminate⟩ :=
    EntryRun.snoc h₃ (o := .addElement 5 4 true) (r := .status 0) rfl
  have h₅ : EntryRun sourcelist _ ⟨[(7, 1), (8324, 2), (5, 4), (9, 6)], .indeterminate⟩ :=
    EntryRun.snoc h₄ (o := .addElement 9 6 true) (r := .status 0) rfl
  have h₆ : EntryRun sourcelist _ ⟨[(7, 1), (8324, 2), (5, 4), (9, 6)], .index 2⟩ :=
    EntryRun.snoc h₅ (o := .gotoElement 5) (r := .status 0) rfl
  have h₇ : EntryRun sourcelist _ ⟨[(7, 1), (8324, 2), (9, 6)], .index 2⟩ :=
    EntryRun.snoc h₆ (o := .deleteCurrentElement) (r := .status 0) rfl
  exact EntryRun.snoc h₇ (o := .deleteElement 7) (r := .status 0) rfl

/-! ## The links -/

namespace HashTable
variable {K V : Type}

/-- The elements along a link, at most `n` of them. -/
def walk (link : HashElement K V → Option Ref) (heap : Ref → Option (HashElement K V)) :
    ℕ → Option Ref → Option (List Ref)
  | _, none => some []
  | 0, some _ => none
  | n + 1, some e => do
    let x ← heap e
    let rest ← walk link heap n (link x)
    return e :: rest

/-- The links of a table are consistent, and reach every element. -/
structure Linked (p : TableParams K) (t : HashTable K V) : Prop where
  list : ∃ l : List Ref, l.Nodup ∧ (∀ r, t.heap r ≠ none ↔ r ∈ l) ∧
    walk (·.listnext) t.heap t.fresh t.firsthashelem = some l ∧
    walk (·.listprev) t.heap t.fresh t.lasthashelem = some l.reverse
  chain : ∀ index, ∃ l : List Ref, l.Nodup ∧
    (∀ r, r ∈ l ↔ ∃ x, t.heap r = some x ∧ p.getIndex x.key = index) ∧
    walk (·.hashnext) t.heap t.fresh (t.table index) = some l
  hashprev : ∀ r x, t.heap r = some x → ∀ r', x.hashprev = some r' ↔
    ∃ x', t.heap r' = some x' ∧ x'.hashnext = some r
  hashindex : ∀ r x, t.heap r = some x → x.hashindex = p.getIndex x.key ∧ InTable p x.hashindex
  keys : ∀ r r' x x', t.heap r = some x → t.heap r' = some x' → x.key = x'.key → r = r'

/-- A link that holds the next element of a list is a way through the list. -/
theorem walk_eq {link : HashElement K V → Option Ref} {heap : Ref → Option (HashElement K V)}
    {l : List Ref} (hl : l.Nodup)
    (hlink : ∀ r ∈ l, ∃ x, heap r = some x ∧ link x = nextIn l r) :
    ∀ (l₂ l₁ : List Ref) (fuel : ℕ), l = l₁ ++ l₂ → l₂.length ≤ fuel →
      walk link heap fuel l₂.head? = some l₂ := by
  intro l₂
  induction l₂ with
  | nil =>
    intro l₁ fuel _ _
    cases fuel <;> rfl
  | cons r l₂ ih =>
    intro l₁ fuel heq hfuel
    obtain ⟨fuel, rfl⟩ : ∃ m, fuel = m + 1 := ⟨fuel - 1, by simp at hfuel; omega⟩
    obtain ⟨x, hx, hnext⟩ := hlink r (by simp [heq])
    rw [heq, nextIn_append_cons (notMem_of_nodup_split (heq ▸ hl)).1] at hnext
    have hrest := ih (l₁ ++ [r]) fuel (by simp [heq]) (by simpa using hfuel)
    rw [List.head?_cons, walk, hx]
    simp only [Option.bind_eq_bind, Option.bind_some, hnext, hrest]
    rfl

end HashTable

section
variable {K V : Type} {p : TableParams K} {nodes : List (Node K V)} {fresh : ℕ}
  {cur : Option (Option Ref)} {r r' : Ref} {x : HashElement K V}

/-- What is on the heap. -/
theorem heap_layout (h : WellFormed p nodes fresh) :
    (layout p nodes fresh cur).heap r = some x ↔ ∃ n ∈ nodes, n.ref = r ∧ cell p nodes n = x := by
  constructor
  · intro hx
    obtain ⟨n, hn, rfl⟩ : ∃ n ∈ nodes, n.ref = r := by
      refine mem_refs.1 ((cells_ne_none_iff (p := p) h.nodupRefs).1 ?_)
      rw [show cells p nodes r = some x from hx]; simp
    exact ⟨n, hn, rfl, Option.some.inj ((cells_of_mem h.nodupRefs hn).symm.trans hx)⟩
  · rintro ⟨n, hn, rfl, rfl⟩
    exact cells_of_mem h.nodupRefs hn

theorem linked_layout (h : WellFormed p nodes fresh) : (layout p nodes fresh cur).Linked p where
  list := by
    refine ⟨refs nodes, h.nodupRefs, fun r => cells_ne_none_iff h.nodupRefs, ?_, ?_⟩
    · refine HashTable.walk_eq h.nodupRefs ?_ _ [] _ rfl ?_
      · intro r hr
        obtain ⟨n, hn, rfl⟩ := mem_refs.1 hr
        exact ⟨_, cells_of_mem h.nodupRefs hn, rfl⟩
      · rw [refs, List.length_map]; exact h.length_le
    · have hlast : (layout p nodes fresh cur).lasthashelem = (refs nodes).reverse.head? := by
        rw [List.head?_reverse]; rfl
      rw [hlast]
      refine HashTable.walk_eq (List.nodup_reverse.2 h.nodupRefs) ?_ _ [] _ rfl ?_
      · intro r hr
        obtain ⟨n, hn, rfl⟩ := mem_refs.1 (List.mem_reverse.1 hr)
        exact ⟨_, cells_of_mem h.nodupRefs hn, rfl⟩
      · rw [List.length_reverse, refs, List.length_map]; exact h.length_le
  chain index := by
    have hnd : (refs (bucket p nodes index)).Nodup := nodup_bucket h.nodupRefs
    refine ⟨(refs (bucket p nodes index)).reverse, List.nodup_reverse.2 hnd, ?_, ?_⟩
    · intro r
      rw [List.mem_reverse]
      constructor
      · intro hr
        obtain ⟨n, hn, rfl⟩ := mem_refs.1 (mem_of_mem_bucket hr)
        exact ⟨_, cells_of_mem h.nodupRefs hn, (mem_bucket h.nodupRefs hn).1 hr⟩
      · rintro ⟨x, hx, hindex⟩
        obtain ⟨n, hn, rfl, rfl⟩ := (heap_layout h).1 hx
        exact (mem_bucket h.nodupRefs hn).2 hindex
    · have htable : (layout p nodes fresh cur).table index =
          (refs (bucket p nodes index)).reverse.head? := by
        rw [List.head?_reverse]; rfl
      rw [htable]
      refine HashTable.walk_eq (List.nodup_reverse.2 hnd) ?_ _ [] _ rfl ?_
      · intro r hr
        rw [List.mem_reverse] at hr
        obtain ⟨n, hn, rfl⟩ := mem_refs.1 (mem_of_mem_bucket hr)
        refine ⟨_, cells_of_mem h.nodupRefs hn, ?_⟩
        change prevIn (refs (bucket p nodes (p.getIndex n.key))) n.ref = _
        rw [(mem_bucket h.nodupRefs hn).1 hr]; rfl
      · rw [List.length_reverse, refs, List.length_map]
        exact Nat.le_trans bucket_sublist.length_le h.length_le
  hashprev r x hx r' := by
    obtain ⟨n, hn, rfl, rfl⟩ := (heap_layout h).1 hx
    have hnd : ∀ index, (refs (bucket p nodes index)).Nodup := fun _ => nodup_bucket h.nodupRefs
    change nextIn (refs (bucket p nodes (p.getIndex n.key))) n.ref = some r' ↔ _
    constructor
    · intro hnext
      obtain ⟨n', hn', rfl⟩ := mem_refs.1 (mem_of_mem_bucket (mem_of_nextIn hnext))
      refine ⟨_, cells_of_mem h.nodupRefs hn', ?_⟩
      change prevIn (refs (bucket p nodes (p.getIndex n'.key))) n'.ref = _
      rw [(mem_bucket h.nodupRefs hn').1 (mem_of_nextIn hnext)]
      exact (nextIn_eq_some_iff_prevIn (hnd _)).1 hnext
    · rintro ⟨x', hx', hprev⟩
      obtain ⟨n', hn', rfl, rfl⟩ := (heap_layout h).1 hx'
      change prevIn (refs (bucket p nodes (p.getIndex n'.key))) n'.ref = _ at hprev
      rw [(mem_bucket h.nodupRefs hn).1 (mem_of_prevIn hprev)]
      exact (nextIn_eq_some_iff_prevIn (hnd _)).2 hprev
  hashindex r x hx := by
    obtain ⟨n, hn, rfl, rfl⟩ := (heap_layout h).1 hx
    exact ⟨rfl, h.inTable n hn⟩
  keys r r' x x' hx hx' hkey := by
    obtain ⟨n, hn, rfl, rfl⟩ := (heap_layout h).1 hx
    obtain ⟨n', hn', rfl, rfl⟩ := (heap_layout h).1 hx'
    rw [h.key_inj hn hn' hkey]

variable [DecidableEq K] {tr : List (TableOp K V × TableResult K V)} {t : HashTable K V}

/-- **The links are consistent after any calls**, and no element is lost: what is on the heap is
    in the list. -/
theorem HashRun.linked (h : HashRun p tr t) : t.Linked p := by
  obtain ⟨s, -, ht⟩ := h.represents
  obtain ⟨nodes, fresh, c, cur, rfl, -, hwf, -⟩ := ht.exists_layout
  exact linked_layout hwf

end

theorem linked_sourcelist : ∃ t, HashRun sourcelist sourceCalls t ∧ t.Linked sourcelist := by
  obtain ⟨t, ht, -⟩ := entryRun_sourceCalls.represents
  exact ⟨t, ht, HashRun.linked ht⟩

/-! ## Going through a table -/

section
variable {K V : Type} [DecidableEq K] {p : TableParams K}
  {tr : List (TableOp K V × TableResult K V)} {s : Entries K V} {t : HashTable K V} {k : K}

/-- One round of a loop over a table: what is current is looked at, and deleted or left. -/
def sweepRound (del : K × V → Bool) (entry : K × V) : List (TableOp K V × TableResult K V) :=
  [(.hasCurrentElement, .bool true), (.getCurrentKey, .key entry.1),
    (.getCurrentElement, .element entry.2),
    if del entry then (.deleteCurrentElement, .status 0) else (.gotoNextElement, .void)]

/-- A loop over a table with some entries, from the first element on. -/
def sweep (del : K × V → Bool) (entries : List (K × V)) : List (TableOp K V × TableResult K V) :=
  (.gotoFirstElement, .void) :: entries.flatMap (sweepRound del) ++
    [(.hasCurrentElement, .bool false)]

omit [DecidableEq K] in
theorem cursorAt_append (kept rest : List (K × V)) (entry : K × V) :
    Entries.cursorAt (kept ++ entry :: rest) kept.length = .index kept.length := by
  rw [Entries.cursorAt, if_pos (by simp)]

/-- A round that starts behind the entries that have been kept. -/
theorem EntryRun.sweepRound {kept rest : List (K × V)} {entry : K × V} (del : K × V → Bool)
    (h : EntryRun p tr ⟨kept ++ entry :: rest,
      Entries.cursorAt (kept ++ entry :: rest) kept.length⟩) :
    EntryRun p (tr ++ sweepRound del entry)
      ⟨kept ++ [entry].filter (fun e => !del e) ++ rest,
        Entries.cursorAt (kept ++ [entry].filter (fun e => !del e) ++ rest)
          (kept ++ [entry].filter fun e => !del e).length⟩ := by
  rw [cursorAt_append] at h
  have hcurrent : (Entries.mk (kept ++ entry :: rest) (.index kept.length)).current =
      some entry := by simp [Entries.current]
  have hhas : EntryRun p (tr ++ [(.hasCurrentElement, .bool true)])
      ⟨kept ++ entry :: rest, .index kept.length⟩ := EntryRun.snoc h rfl
  have hkey := EntryRun.snoc hhas (o := .getCurrentKey) (r := .key entry.1)
    (by rw [Entries.perform, hcurrent]; rfl)
  have helement := EntryRun.snoc hkey (o := .getCurrentElement) (r := .element entry.2)
    (by rw [Entries.perform, hcurrent]; rfl)
  cases hdel : del entry with
  | true =>
    have hmove := EntryRun.snoc helement (o := .deleteCurrentElement) (r := .status 0) rfl
    simpa [RayionClient.sweepRound, hdel, eraseIdx_split] using hmove
  | false =>
    have hmove := EntryRun.snoc helement (o := .gotoNextElement) (r := .void) rfl
    simpa [RayionClient.sweepRound, hdel] using hmove

theorem EntryRun.sweepRounds (del : K × V → Bool) : ∀ (rest kept : List (K × V))
    (tr : List (TableOp K V × TableResult K V)),
    EntryRun p tr ⟨kept ++ rest, Entries.cursorAt (kept ++ rest) kept.length⟩ →
      EntryRun p (tr ++ rest.flatMap (RayionClient.sweepRound del))
        ⟨kept ++ rest.filter fun e => !del e, .null⟩ := by
  intro rest
  induction rest with
  | nil =>
    intro kept tr h
    have hend : Entries.cursorAt (kept ++ []) kept.length = .null := by simp [Entries.cursorAt]
    rw [hend] at h
    simpa using h
  | cons entry rest ih =>
    intro kept tr h
    have hrest := ih _ _ (EntryRun.sweepRound del h)
    rwa [List.append_assoc, List.append_assoc, ← List.flatMap_cons, ← List.filter_append] at hrest

theorem EntryRun.sweep (h : EntryRun p tr s) (del : K × V → Bool) :
    EntryRun p (tr ++ sweep del s.entries) ⟨s.entries.filter fun e => !del e, .null⟩ := by
  have hfirst : EntryRun p (tr ++ [(.gotoFirstElement, .void)])
      ⟨[] ++ s.entries, Entries.cursorAt ([] ++ s.entries) 0⟩ := EntryRun.snoc h rfl
  have hrounds := EntryRun.sweepRounds del s.entries [] _ hfirst
  have hend := EntryRun.snoc hrounds (o := .hasCurrentElement) (r := .bool false) rfl
  simpa [RayionClient.sweep] using hend

/-- **A loop over a table** meets every entry once, in the order in which they were added, and
    leaves those that it has not deleted. -/
theorem HashRun.visitsAll (h : HashRun p tr t) : ∃ s, EntryRun p tr s ∧ Represents p t s ∧
    ∀ del, ∃ t', HashRun p (tr ++ sweep del s.entries) t' ∧
      Represents p t' ⟨s.entries.filter fun e => !del e, .null⟩ := by
  obtain ⟨s, hs, ht⟩ := h.represents
  refine ⟨s, hs, ht, ?_⟩
  intro del
  obtain ⟨t', ht', hrep⟩ := (EntryRun.sweep hs del).represents
  exact ⟨t', ht', hrep⟩

end

theorem visitsAll_sourcelist : ∃ t, HashRun sourcelist sourceCalls t ∧
    ∀ del, ∃ t', HashRun sourcelist (sourceCalls ++ sweep del [(8324, 2), (9, 6)]) t' ∧
      Represents sourcelist t' ⟨[(8324, 2), (9, 6)].filter fun e => !del e, .null⟩ := by
  obtain ⟨t, ht, -⟩ := entryRun_sourceCalls.represents
  obtain ⟨s, hs, -, hsweep⟩ := HashRun.visitsAll ht
  obtain rfl := EntryRun.unique hs entryRun_sourceCalls
  exact ⟨t, ht, hsweep⟩

section
variable {K V : Type} [DecidableEq K] {p : TableParams K}
  {tr : List (TableOp K V × TableResult K V)} {s : Entries K V} {t : HashTable K V} {k : K}

/-! ## What a table holds -/

/-- One operation, labelled with the key of the current element before it, too. -/
def HashTable.KeyedStep (p : TableParams K) (t : HashTable K V)
    (call : Option K × TableOp K V × TableResult K V) (t' : HashTable K V) : Prop :=
  call.1 = t.getCurrentKey ∧ HashTable.Step p t call.2 t'

/-- The runs of a hash table, with these keys. -/
abbrev KeyedRun (p : TableParams K) (calls : List (Option K × TableOp K V × TableResult K V))
    (t : HashTable K V) : Prop := Run (HashTable.KeyedStep p) .new calls t

/-- What a successful call changes. -/
def storedStep (m : K → Option V) : Option K × TableOp K V × TableResult K V → K → Option V
  | (_, .addElement k elem _, .status 0) => Function.update m k (some elem)
  | (_, .deleteElement k, .status 0) => Function.update m k none
  | (some k, .deleteCurrentElement, .status 0) => Function.update m k none
  | (_, .clear, _) => fun _ => none
  | _ => m

/-- A call that fails changes nothing. -/
theorem storedStep_of_neg {m : K → Option V} {current : Option K} {o : TableOp K V} {code : ℤ}
    (ho : o ≠ .clear) (hneg : code < 0) : storedStep m (current, o, .status code) = m := by
  have hne : code ≠ 0 := by omega
  unfold storedStep
  split <;> simp_all

/-- The map that a sequence of calls describes. -/
def stored (calls : List (Option K × TableOp K V × TableResult K V)) : K → Option V :=
  calls.foldl storedStep fun _ => none

theorem stored_concat (calls : List (Option K × TableOp K V × TableResult K V))
    (call : Option K × TableOp K V × TableResult K V) :
    stored (calls ++ [call]) = storedStep (stored calls) call := by
  rw [stored, stored, List.foldl_append]; rfl

namespace Entries

/-- The value of the first entry with a key. -/
def lookup (entries : List (K × V)) (k : K) : Option V :=
  (entries.find? (·.1 = k)).map Prod.snd

theorem lookup_append (l l' : List (K × V)) (k : K) :
    lookup (l ++ l') k = (lookup l k).or (lookup l' k) := by
  rw [lookup, List.find?_append, Option.map_or]; rfl

theorem lookup_cons (entry : K × V) (l : List (K × V)) (k : K) :
    lookup (entry :: l) k = if entry.1 = k then some entry.2 else lookup l k := by
  rw [lookup, List.find?_cons]
  by_cases h : entry.1 = k <;> simp [h, lookup]

theorem lookup_eq_none {l : List (K × V)} : lookup l k = none ↔ k ∉ l.map Prod.fst := by
  rw [lookup, Option.map_eq_none_iff, List.find?_eq_none, List.mem_map]
  constructor
  · rintro h ⟨entry, hentry, rfl⟩
    exact h entry hentry (by simp)
  · intro h entry hentry hk
    exact h ⟨entry, hentry, by simpa using hk⟩

theorem hasKey_eq_lookup (s : Entries K V) (k : K) : s.hasKey k = (lookup s.entries k).isSome := by
  rw [hasKey, lookup, Option.isSome_map, List.isSome_find?]

theorem position_lookup (s : Entries K V) (k : K) :
    (s.entries[s.position k]?).map Prod.snd = lookup s.entries k := by
  rw [lookup, List.find?_eq_getElem?_findIdx]; rfl

omit [DecidableEq K] in
theorem current_cursorAt (l : List (K × V)) (i : ℕ) : (mk l (cursorAt l i)).current = l[i]? := by
  rw [cursorAt]
  split_ifs with hi
  · rfl
  · rw [List.getElem?_eq_none (Nat.le_of_not_lt hi)]; rfl

theorem lookup_concat {l : List (K × V)} {elem : V} (hk : lookup l k = none) :
    lookup (l ++ [(k, elem)]) = Function.update (lookup l) k (some elem) := by
  funext k'
  rw [lookup_append, lookup_cons]
  by_cases h : k = k'
  · subst h
    rw [if_pos rfl, hk, Function.update_self]; rfl
  · rw [if_neg h, Function.update_of_ne (Ne.symm h)]
    cases lookup l k' <;> rfl

theorem lookup_erase {l₁ l₂ : List (K × V)} {entry : K × V}
    (hnd : ((l₁ ++ entry :: l₂).map Prod.fst).Nodup) :
    lookup (l₁ ++ l₂) = Function.update (lookup (l₁ ++ entry :: l₂)) entry.1 none := by
  rw [List.map_append, List.map_cons] at hnd
  obtain ⟨h₁, h₂⟩ := notMem_of_nodup_split hnd
  funext k'
  by_cases h : k' = entry.1
  · subst h
    rw [Function.update_self, lookup_append, lookup_eq_none.2 h₁, lookup_eq_none.2 h₂]; rfl
  · rw [Function.update_of_ne h, lookup_append, lookup_append, lookup_cons, if_neg (Ne.symm h)]

theorem add_cases {elem : V} {allocated : Bool} {code : ℤ} {s' : Entries K V}
    (h : s.add p k elem allocated = some (code, s')) :
    (code < 0 ∧ s' = s) ∨ (code = 0 ∧ lookup s.entries k = none ∧
      s' = { s with entries := s.entries ++ [(k, elem)] }) := by
  rw [add] at h
  rcases index_cases p k with hge | hneg | hin
  · rw [withIndex_of_ge hge] at h
    cases h
    exact .inl ⟨p.invalidHashIndex_neg, rfl⟩
  · rw [withIndex_of_neg hneg] at h; cases h
  · rw [withIndex_of_inTable hin] at h
    split_ifs at h with hk ha
    · cases h
      exact .inl ⟨p.alreadyExists_neg, rfl⟩
    · cases h
      exact .inl ⟨by decide, rfl⟩
    · cases h
      rw [hasKey_eq_lookup, Option.not_isSome_iff_eq_none] at hk
      exact .inr ⟨rfl, hk, rfl⟩

theorem exists_position (hk : s.hasKey k) : ∃ elem, s.entries[s.position k]? = some (k, elem) := by
  rw [hasKey, ← List.isSome_find?, Option.isSome_iff_exists] at hk
  obtain ⟨⟨k', elem⟩, hfind⟩ := hk
  obtain rfl : k' = k := by simpa using List.find?_some hfind
  exact ⟨elem, by rw [position, ← List.find?_eq_getElem?_findIdx, hfind]⟩

theorem gotoKey_cases {code : ℤ} {s' : Entries K V} (h : s.gotoKey p k = some (code, s')) :
    s'.entries = s.entries ∧ (code < 0 ∨ code = 0 ∧
      ∃ l₁ l₂ elem, s.entries = l₁ ++ (k, elem) :: l₂ ∧ s'.cursor = .index l₁.length) := by
  rw [gotoKey] at h
  rcases index_cases p k with hge | hneg | hin
  · rw [withIndex_of_ge hge] at h
    cases h
    exact ⟨rfl, .inl p.invalidHashIndex_neg⟩
  · rw [withIndex_of_neg hneg] at h; cases h
  · rw [withIndex_of_inTable hin] at h
    cases h
    refine ⟨rfl, ?_⟩
    split_ifs with hk
    · obtain ⟨elem, helem⟩ := exists_position hk
      obtain ⟨l₁, l₂, heq, hlen⟩ := exists_split_getElem? helem
      refine .inr ⟨rfl, l₁, l₂, elem, heq, ?_⟩
      rw [hlen, cursorAt, if_pos (List.getElem?_eq_some_iff.1 helem).1]
    · exact .inl p.notFound_neg

theorem delete_cases {code : ℤ} {s' : Entries K V} (h : s.delete p k = some (code, s')) :
    (code < 0 ∧ s'.entries = s.entries) ∨ (code = 0 ∧
      ∃ l₁ l₂ elem, s.entries = l₁ ++ (k, elem) :: l₂ ∧ s'.entries = l₁ ++ l₂) := by
  rw [delete] at h
  cases hgo : s.gotoKey p k with
  | none => rw [hgo] at h; cases h
  | some x =>
    obtain ⟨code', s''⟩ := x
    obtain ⟨hentries, hneg | ⟨rfl, l₁, l₂, elem, heq, hcur⟩⟩ := gotoKey_cases hgo
    · simp only [hgo, Option.bind_eq_bind, Option.bind_some, if_pos hneg] at h
      cases h
      exact .inl ⟨hneg, hentries⟩
    · simp only [hgo, Option.bind_eq_bind, Option.bind_some, deleteCurrent, hcur, hentries] at h
      cases h
      exact .inr ⟨rfl, l₁, l₂, elem, heq, by rw [heq, eraseIdx_split]⟩

omit [DecidableEq K] in
theorem deleteCurrent_cases {code : ℤ} {s' : Entries K V}
    (h : s.deleteCurrent p = some (code, s')) : (code < 0 ∧ s' = s) ∨ (code = 0 ∧
      (s.current = none ∧ s'.entries = s.entries ∨ ∃ l₁ l₂ entry, s.current = some entry ∧
        s.entries = l₁ ++ entry :: l₂ ∧ s'.entries = l₁ ++ l₂)) := by
  rw [deleteCurrent] at h
  cases hcur : s.cursor with
  | indeterminate | dangling => simp [hcur] at h
  | null =>
    simp only [hcur] at h
    cases h
    exact .inl ⟨p.noCurrentElement_neg, rfl⟩
  | index i =>
    simp only [hcur] at h
    cases h
    refine .inr ⟨rfl, ?_⟩
    have hcurrent : s.current = s.entries[i]? := by rw [current, hcur]
    cases hentry : s.entries[i]? with
    | none =>
      have hlen := List.getElem?_eq_none_iff.1 hentry
      exact .inl ⟨hcurrent.trans hentry, List.eraseIdx_of_length_le hlen⟩
    | some entry =>
      obtain ⟨l₁, l₂, heq, rfl⟩ := exists_split_getElem? hentry
      exact .inr ⟨l₁, l₂, entry, hcurrent.trans hentry, heq, by rw [heq, eraseIdx_split]⟩

/-- A call, on the map. -/
theorem lookup_step {s' : Entries K V} {call : Option K × TableOp K V × TableResult K V}
    (hnd : (s.entries.map Prod.fst).Nodup) (hkey : call.1 = s.current.map Prod.fst)
    (hs : Entries.Step p s call.2 s') :
    lookup s'.entries = storedStep (lookup s.entries) call := by
  obtain ⟨key, o, r⟩ := call
  change s.perform p o = some (r, s') at hs
  cases o with
  | gotoFirstElement => cases hs; rfl
  | gotoLastElement => cases hs; rfl
  | deleteCurrentElement =>
    obtain ⟨⟨code, s''⟩, ha, hs⟩ := Option.map_eq_some_iff.1 hs
    cases hs
    obtain rfl : key = s.current.map Prod.fst := hkey
    rcases deleteCurrent_cases ha with ⟨hneg, rfl⟩ |
      ⟨rfl, ⟨hnone, hsame⟩ | ⟨l₁, l₂, entry, hcur, heq, hrest⟩⟩
    · rw [storedStep_of_neg (by simp) hneg]
    · rw [hsame, hnone]; rfl
    · rw [hrest, hcur, heq, lookup_erase (heq ▸ hnd)]; rfl
  | clear => cases hs; rfl
  | hasCurrentElement | getCurrentElement | getCurrentKey | hasElement =>
    obtain ⟨a, -, hs⟩ := Option.map_eq_some_iff.1 hs
    cases hs; rfl
  | gotoElement k =>
    obtain ⟨a, ha, hs⟩ := Option.map_eq_some_iff.1 hs
    cases hs
    rw [(gotoKey_cases ha).1]; rfl
  | gotoNextElement =>
    obtain ⟨a, ha, hs⟩ := Option.map_eq_some_iff.1 hs
    cases hs
    rw [gotoNext] at ha
    split at ha <;> cases ha <;> rfl
  | gotoPreviousElement =>
    obtain ⟨a, ha, hs⟩ := Option.map_eq_some_iff.1 hs
    cases hs
    rw [gotoPrevious] at ha
    split at ha <;> cases ha <;> rfl
  | addElement k elem allocated =>
    obtain ⟨⟨code, s''⟩, ha, hs⟩ := Option.map_eq_some_iff.1 hs
    cases hs
    rcases add_cases ha with ⟨hneg, rfl⟩ | ⟨rfl, hk, rfl⟩
    · rw [storedStep_of_neg (by simp) hneg]
    · exact lookup_concat hk
  | deleteElement k =>
    obtain ⟨⟨code, s''⟩, ha, hs⟩ := Option.map_eq_some_iff.1 hs
    cases hs
    rcases delete_cases ha with ⟨hneg, heq⟩ | ⟨rfl, l₁, l₂, elem, heq, hrest⟩
    · rw [heq, storedStep_of_neg (by simp) hneg]
    · rw [hrest, heq, lookup_erase (heq ▸ hnd)]; rfl

end Entries

omit [DecidableEq K] in
theorem Represents.nodup (ht : Represents p t s) : (s.entries.map Prod.fst).Nodup := by
  obtain ⟨nodes, fresh, c, cur, rfl, rfl, hwf, -⟩ := ht.exists_layout
  rw [List.map_map]; exact hwf.nodupKeys

/-- Every run has its keys. -/
theorem HashRun.exists_keyedRun (h : HashRun p tr t) :
    ∃ calls, KeyedRun p calls t ∧ calls.map Prod.snd = tr := by
  induction h with
  | start => exact ⟨[], .start, rfl⟩
  | @snoc tr t t' event h hs ih =>
    obtain ⟨calls, hcalls, rfl⟩ := ih
    have hrun : KeyedRun p (calls ++ [(t.getCurrentKey, event)]) t' := hcalls.snoc ⟨rfl, hs⟩
    exact ⟨_, hrun, List.map_append⟩

/-- The entries are those of the map. -/
theorem KeyedRun.lookup_eq {calls : List (Option K × TableOp K V × TableResult K V)}
    (h : KeyedRun p calls t) :
    ∃ s, Represents p t s ∧ Entries.lookup s.entries = stored calls := by
  induction h with
  | start => exact ⟨_, represents_new, rfl⟩
  | @snoc calls t t' call h hs ih =>
    obtain ⟨s, ht, hlookup⟩ := ih
    obtain ⟨hkey, hs⟩ := hs
    obtain ⟨s', hs', ht'⟩ := ht.step hs
    have hcur : t.getCurrentKey = s.current.map Prod.fst := by
      rw [← ht.current, Option.map_map]; rfl
    refine ⟨s', ht', ?_⟩
    rw [stored_concat, ← hlookup]
    exact Entries.lookup_step ht.nodup (hkey.trans hcur) hs'

/-- **A table is the map that the successful calls describe**: `HasElement` tells whether a key
    has a value, and `GotoElement` goes to it. -/
theorem HashRun.isMap (hindex : ∀ k, HashTable.InTable p (p.getIndex k)) (h : HashRun p tr t) :
    ∃ calls, KeyedRun p calls t ∧ calls.map Prod.snd = tr ∧ ∀ k,
      t.hasElement p k = some (stored calls k).isSome ∧
      ∃ code t', t.gotoElement p k = some (code, t') ∧
        (code = 0 ↔ (stored calls k).isSome) ∧ t'.getCurrentElement = stored calls k := by
  obtain ⟨calls, hcalls, htr⟩ := h.exists_keyedRun
  obtain ⟨s, ht, hlookup⟩ := KeyedRun.lookup_eq hcalls
  refine ⟨calls, hcalls, htr, ?_⟩
  intro k
  constructor
  · rw [ht.hasElement k, withIndex_of_inTable (hindex k), Entries.hasKey_eq_lookup, hlookup]
  · have hgo := ht.gotoElement k
    rw [Entries.gotoKey, withIndex_of_inTable (hindex k)] at hgo
    obtain ⟨t', hgo', ht'⟩ := Same.exists_left hgo
    refine ⟨_, t', hgo', ?_, ?_⟩
    · rw [Entries.hasKey_eq_lookup, hlookup]
      have hneg := p.notFound_neg
      split_ifs with hk
      · simp [hk]
      · exact iff_of_false (by omega) hk
    · have hcurrent : t'.getCurrentElement = (Entries.current
          { s with cursor := Entries.cursorAt s.entries (s.position k) }).map Prod.snd := by
        rw [← ht'.current, Option.map_map]; rfl
      rw [hcurrent, ← hlookup, ← Entries.position_lookup, Entries.current_cursorAt]

end

theorem isMap_sourcelist : ∃ t calls, HashRun sourcelist sourceCalls t ∧
    KeyedRun sourcelist calls t ∧ calls.map Prod.snd = sourceCalls ∧
    (stored calls 5).isSome = false ∧ (stored calls 7).isSome = false ∧
    (stored calls 9).isSome = true := by
  obtain ⟨t, ht, hrep⟩ := entryRun_sourceCalls.represents
  obtain ⟨calls, hcalls, htr, hmap⟩ := HashRun.isMap sourcelist_inTable ht
  have h5 := (hmap 5).1.symm.trans (hrep.hasElement 5)
  have h7 := (hmap 7).1.symm.trans (hrep.hasElement 7)
  have h9 := (hmap 9).1.symm.trans (hrep.hasElement 9)
  exact ⟨t, calls, ht, hcalls, htr, Option.some.inj h5, Option.some.inj h7, Option.some.inj h9⟩

section
variable {K V : Type} [DecidableEq K] {p : TableParams K}
  {tr : List (TableOp K V × TableResult K V)} {s : Entries K V} {t : HashTable K V} {k : K}

/-! ## Defined use -/

/-- What a caller knows about the current element: nothing, that `HasCurrentElement` may be
    asked, or that there is one. -/
inductive Known where
  | nothing
  | position
  | element

/-- What a caller knows after a call. -/
def Known.after (known : Known) : TableOp K V × TableResult K V → Known
  | (.gotoFirstElement, _) | (.gotoLastElement, _) | (.gotoNextElement, _)
  | (.gotoPreviousElement, _) | (.deleteCurrentElement, _) | (.deleteElement _, _) => .position
  | (.gotoElement _, .status code) => if code = 0 then .element else .position
  | (.hasCurrentElement, .bool true) =>
    match known with
    | .nothing => .nothing
    | .position | .element => .element
  | (.clear, _) => .nothing
  | _ => known

/-- What a caller knows after some calls. -/
def known (tr : List (TableOp K V × TableResult K V)) : Known := tr.foldl Known.after .nothing

/-- What may be called with what is known. -/
def Known.Allows : Known → TableOp K V → Prop
  | .nothing, .hasCurrentElement | .nothing, .deleteCurrentElement | .nothing, .gotoNextElement
  | .nothing, .gotoPreviousElement => False
  | .nothing, .getCurrentElement | .nothing, .getCurrentKey => False
  | .position, .getCurrentElement | .position, .getCurrentKey => False
  | _, _ => True

omit [DecidableEq K] in
theorem known_concat (tr : List (TableOp K V × TableResult K V))
    (event : TableOp K V × TableResult K V) :
    known (tr ++ [event]) = (known tr).after event := by
  rw [known, known, List.foldl_append]; rfl

/-- What is known is true. -/
def Known.Holds (c : Position) : Known → Prop
  | .nothing => True
  | .position => c ≠ .indeterminate ∧ c ≠ .dangling
  | .element => ∃ i, c = .index i

omit [DecidableEq K] in
theorem holds_cursorAt (l : List (K × V)) (i : ℕ) :
    Known.position.Holds (Entries.cursorAt l i) := by
  rw [Entries.cursorAt]
  split_ifs <;> exact ⟨by simp, by simp⟩

omit [DecidableEq K] in
theorem holds_deleteCurrent {code : ℤ} {s' : Entries K V}
    (h : s.deleteCurrent p = some (code, s')) : Known.position.Holds s'.cursor := by
  rw [Entries.deleteCurrent] at h
  split at h
  · cases h
  · cases h
  · cases h
    rename_i hc
    rw [hc]; exact ⟨by simp, by simp⟩
  · cases h; exact holds_cursorAt _ _

theorem holds_gotoKey (hin : HashTable.InTable p (p.getIndex k)) {code : ℤ} {s' : Entries K V}
    (h : s.gotoKey p k = some (code, s')) : Known.position.Holds s'.cursor := by
  rw [Entries.gotoKey, withIndex_of_inTable hin] at h
  cases h; exact holds_cursorAt _ _

theorem Known.Holds.step {kn : Known} {s' : Entries K V} {event : TableOp K V × TableResult K V}
    (hindex : ∀ k, HashTable.InTable p (p.getIndex k)) (hk : kn.Holds s.cursor)
    (hs : Entries.Step p s event s') : (kn.after event).Holds s'.cursor := by
  obtain ⟨o, r⟩ := event
  change s.perform p o = some (r, s') at hs
  cases o with
  | gotoFirstElement => cases hs; exact holds_cursorAt _ _
  | gotoLastElement => cases hs; exact holds_cursorAt _ _
  | clear => trivial
  | getCurrentElement | getCurrentKey | hasElement =>
    obtain ⟨a, -, hs⟩ := Option.map_eq_some_iff.1 hs
    cases hs; exact hk
  | hasCurrentElement =>
    obtain ⟨b, hb, hs⟩ := Option.map_eq_some_iff.1 hs
    cases hs
    cases b with
    | false => exact hk
    | true =>
      cases kn with
      | nothing => trivial
      | element => exact hk
      | position =>
        rw [Entries.hasCurrent] at hb
        split at hb
        · cases hb
        · cases hb
        · exact absurd ‹_› hk.2
        · exact ⟨_, ‹_›⟩
  | gotoNextElement =>
    obtain ⟨a, ha, hs⟩ := Option.map_eq_some_iff.1 hs
    cases hs
    rw [Entries.gotoNext] at ha
    split at ha
    · cases ha
    · cases ha
    · cases ha
      rename_i hc
      rw [hc]; exact ⟨by simp, by simp⟩
    · cases ha; exact holds_cursorAt _ _
  | gotoPreviousElement =>
    obtain ⟨a, ha, hs⟩ := Option.map_eq_some_iff.1 hs
    cases hs
    rw [Entries.gotoPrevious] at ha
    split at ha <;> cases ha <;> exact ⟨by simp, by simp⟩
  | deleteCurrentElement =>
    obtain ⟨⟨code, a⟩, ha, hs⟩ := Option.map_eq_some_iff.1 hs
    cases hs; exact holds_deleteCurrent ha
  | addElement k elem allocated =>
    obtain ⟨⟨code, a⟩, ha, hs⟩ := Option.map_eq_some_iff.1 hs
    cases hs
    rcases Entries.add_cases ha with ⟨-, rfl⟩ | ⟨-, -, rfl⟩ <;> exact hk
  | gotoElement k =>
    obtain ⟨⟨code, a⟩, ha, hs⟩ := Option.map_eq_some_iff.1 hs
    cases hs
    rw [Known.after]
    obtain ⟨-, hneg | ⟨rfl, l₁, -, -, -, hc⟩⟩ := Entries.gotoKey_cases ha
    · rw [if_neg (by omega)]; exact holds_gotoKey (hindex k) ha
    · rw [if_pos rfl]; exact ⟨_, hc⟩
  | deleteElement k =>
    obtain ⟨⟨code, a⟩, ha, hs⟩ := Option.map_eq_some_iff.1 hs
    cases hs
    rw [Entries.delete] at ha
    obtain ⟨⟨status, s''⟩, hgo, ha⟩ := Option.bind_eq_some_iff.1 ha
    dsimp only at ha
    split_ifs at ha
    · cases ha; exact holds_gotoKey (hindex k) hgo
    · exact holds_deleteCurrent ha

theorem Known.Holds.exists_perform {kn : Known} (hindex : ∀ k, HashTable.InTable p (p.getIndex k))
    (hrange : ∀ i, s.cursor = .index i → i < s.entries.length) (hk : kn.Holds s.cursor)
    {o : TableOp K V} (ho : kn.Allows o) : ∃ r s', s.perform p o = some (r, s') := by
  have hmove : kn ≠ .nothing → s.cursor = .null ∨ ∃ i, s.cursor = .index i := by
    intro hne
    cases hc : s.cursor with
    | null => exact .inl rfl
    | index i => exact .inr ⟨i, rfl⟩
    | _ => cases kn <;> simp_all [Known.Holds]
  have hcurrent : kn = .element → ∃ e, s.current = some e := by
    rintro rfl
    obtain ⟨i, hc⟩ := hk
    exact ⟨_, by rw [Entries.current, hc]; exact List.getElem?_eq_getElem (hrange i hc)⟩
  cases o with
  | gotoFirstElement | gotoLastElement | clear => exact ⟨_, _, rfl⟩
  | hasCurrentElement =>
    have hne : kn ≠ .nothing := by rintro rfl; exact ho
    rw [Entries.perform, Entries.hasCurrent]
    rcases hmove hne with hc | ⟨i, hc⟩ <;> rw [hc] <;> exact ⟨_, _, rfl⟩
  | gotoNextElement =>
    have hne : kn ≠ .nothing := by rintro rfl; exact ho
    rw [Entries.perform, Entries.gotoNext]
    rcases hmove hne with hc | ⟨i, hc⟩ <;> rw [hc] <;> exact ⟨_, _, rfl⟩
  | gotoPreviousElement =>
    have hne : kn ≠ .nothing := by rintro rfl; exact ho
    rw [Entries.perform, Entries.gotoPrevious]
    rcases hmove hne with hc | ⟨_ | i, hc⟩ <;> rw [hc] <;> exact ⟨_, _, rfl⟩
  | deleteCurrentElement =>
    have hne : kn ≠ .nothing := by rintro rfl; exact ho
    rw [Entries.perform, Entries.deleteCurrent]
    rcases hmove hne with hc | ⟨i, hc⟩ <;> rw [hc] <;> exact ⟨_, _, rfl⟩
  | getCurrentElement =>
    have heq : kn = .element := by cases kn <;> first | rfl | exact ho.elim
    obtain ⟨e, he⟩ := hcurrent heq
    exact ⟨_, _, by rw [Entries.perform, he]; rfl⟩
  | getCurrentKey =>
    have heq : kn = .element := by cases kn <;> first | rfl | exact ho.elim
    obtain ⟨e, he⟩ := hcurrent heq
    exact ⟨_, _, by rw [Entries.perform, he]; rfl⟩
  | gotoElement k =>
    exact ⟨_, _, by rw [Entries.perform, Entries.gotoKey, withIndex_of_inTable (hindex k)]; rfl⟩
  | hasElement k => exact ⟨_, _, by rw [Entries.perform, withIndex_of_inTable (hindex k)]; rfl⟩
  | addElement k elem allocated =>
    exact ⟨_, _, by rw [Entries.perform, Entries.add, withIndex_of_inTable (hindex k)]; rfl⟩
  | deleteElement k =>
    rw [Entries.perform, Entries.delete, Entries.gotoKey, withIndex_of_inTable (hindex k)]
    simp only [Option.bind_eq_bind, Option.bind_some]
    generalize (if s.hasKey k then (0 : ℤ) else p.notFound) = status
    split_ifs
    · exact ⟨_, _, rfl⟩
    · rw [Entries.deleteCurrent, Entries.cursorAt]
      split_ifs <;> exact ⟨_, _, rfl⟩

theorem EntryRun.holds (hindex : ∀ k, HashTable.InTable p (p.getIndex k)) (h : EntryRun p tr s) :
    (known tr).Holds s.cursor := by
  refine h.inv (I := fun tr s => (known tr).Holds s.cursor) trivial ?_
  intro tr s event s' hk hs
  rw [known_concat]
  exact hk.step hindex hs

omit [DecidableEq K] in
theorem Represents.index_lt (ht : Represents p t s) {i : ℕ} (hc : s.cursor = .index i) :
    i < s.entries.length := by
  obtain ⟨nodes, fresh, c, cur, rfl, rfl, -, hpt⟩ := ht.exists_layout
  obtain rfl : c = .index i := hc
  obtain ⟨n, -, hn, -⟩ := hpt.exists_node
  rw [List.length_map]
  exact (List.getElem?_eq_some_iff.1 hn).1

/-- **A careful caller does nothing undefined**: no null pointer, no deleted element, no
    indeterminate pointer is used, whatever has been called before. -/
theorem HashRun.defined (hindex : ∀ k, HashTable.InTable p (p.getIndex k)) (h : HashRun p tr t)
    {o : TableOp K V} (ho : (known tr).Allows o) : ∃ r t', t.perform p o = some (r, t') := by
  obtain ⟨s, hs, ht⟩ := h.represents
  have hk := EntryRun.holds hindex hs
  obtain ⟨r, s', hs'⟩ := hk.exists_perform hindex (fun _ hc => ht.index_lt hc) ho
  have hop := ht.perform o
  rw [hs'] at hop
  obtain ⟨t', ht', -⟩ := hop.exists_left
  exact ⟨r, t', ht'⟩

end

theorem defined_sourcelist : ∃ t, HashRun sourcelist sourceCalls t ∧
    ∃ r t', t.perform sourcelist .hasCurrentElement = some (r, t') := by
  obtain ⟨t, ht, -⟩ := entryRun_sourceCalls.represents
  exact ⟨t, ht, HashRun.defined sourcelist_inTable ht trivial⟩

end RayionClient
