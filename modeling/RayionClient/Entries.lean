/-
  The hash tables of jrtplib, seen from outside.

  A table is a list of entries with distinct keys, in the order in which they were
  added, with a current position.  `layout` is the table that a list of elements
  makes in memory: every link of the source is `nextIn` or `prevIn` of the list, or
  of a bucket.  `Represents` relates the two.
-/
import RayionClient.HashTable
import RayionClient.Base.Neighbours

namespace RayionClient

open Base

/-- The current element: not set yet, deleted by `Clear`, none, or a position. -/
inductive Position where
  | indeterminate
  | dangling
  | null
  | index (i : ℕ)
  deriving DecidableEq

/-- The entries in the order of insertion, and the current position. -/
structure Entries (K V : Type) where
  entries : List (K × V)
  cursor : Position

namespace Entries
variable {K V : Type}

/-- An empty table; its position is not set. -/
def new : Entries K V := ⟨[], .indeterminate⟩

/-- Position `i`, if there is one. -/
def cursorAt (entries : List (K × V)) (i : ℕ) : Position :=
  if i < entries.length then .index i else .null

/-- The entry at the current position. -/
def current (s : Entries K V) : Option (K × V) :=
  match s.cursor with
  | .index i => s.entries[i]?
  | _ => none

/-- `HasCurrentElement`. -/
def hasCurrent (s : Entries K V) : Option Bool :=
  match s.cursor with
  | .indeterminate => none
  | .null => some false
  | .dangling | .index _ => some true

/-- `GotoNextElement`. -/
def gotoNext (s : Entries K V) : Option (Entries K V) :=
  match s.cursor with
  | .indeterminate | .dangling => none
  | .null => some s
  | .index i => some { s with cursor := cursorAt s.entries (i + 1) }

/-- `GotoPreviousElement`. -/
def gotoPrevious (s : Entries K V) : Option (Entries K V) :=
  match s.cursor with
  | .indeterminate | .dangling => none
  | .null | .index 0 => some { s with cursor := .null }
  | .index (i + 1) => some { s with cursor := .index i }

/-- The position stays, so the next element becomes the current one. -/
def deleteCurrent (p : TableParams K) (s : Entries K V) : Option (ℤ × Entries K V) :=
  match s.cursor with
  | .indeterminate | .dangling => none
  | .null => some (p.noCurrentElement, s)
  | .index i => some (0, ⟨s.entries.eraseIdx i, cursorAt (s.entries.eraseIdx i) i⟩)

/-- Only the upper bound of an index is checked. -/
def withIndex {α : Type} (p : TableParams K) (k : K) (invalid : α) (x : α) : Option α :=
  if p.getIndex k ≥ p.hashsize then some invalid else if p.getIndex k < 0 then none else some x

section
variable (p : TableParams K) [DecidableEq K]

/-- One of the entries has the key. -/
def hasKey (s : Entries K V) (k : K) : Bool := s.entries.any (·.1 = k)

/-- The position of a key, or the number of entries. -/
def position (s : Entries K V) (k : K) : ℕ := s.entries.findIdx (·.1 = k)

/-- `GotoElement`. -/
def gotoKey (k : K) (s : Entries K V) : Option (ℤ × Entries K V) :=
  withIndex p k (p.invalidHashIndex, s)
    (if s.hasKey k then 0 else p.notFound,
      { s with cursor := cursorAt s.entries (s.position k) })

/-- `AddElement`, at the end. -/
def add (k : K) (elem : V) (allocated : Bool) (s : Entries K V) : Option (ℤ × Entries K V) :=
  withIndex p k (p.invalidHashIndex, s)
    (if s.hasKey k then (p.alreadyExists, s)
    else if !allocated then (outOfMem, s)
    else (0, { s with entries := s.entries ++ [(k, elem)] }))

/-- `DeleteElement`. -/
def delete (k : K) (s : Entries K V) : Option (ℤ × Entries K V) := do
  let (status, s) ← s.gotoKey p k
  if status < 0 then return (status, s)
  s.deleteCurrent p

/-- The current element is deleted with the others. -/
def clear (s : Entries K V) : Entries K V where
  entries := []
  cursor := match s.cursor with
    | .index _ => .dangling
    | cursor => cursor

/-- One operation, seen from outside. -/
def perform (s : Entries K V) : TableOp K V → Option (TableResult K V × Entries K V)
  | .gotoFirstElement => some (.void, { s with cursor := cursorAt s.entries 0 })
  | .gotoLastElement => some (.void, { s with cursor := cursorAt s.entries (s.entries.length - 1) })
  | .hasCurrentElement => s.hasCurrent.map fun b => (.bool b, s)
  | .deleteCurrentElement => (s.deleteCurrent p).map fun (code, s) => (.status code, s)
  | .getCurrentElement => s.current.map fun e => (.element e.2, s)
  | .getCurrentKey => s.current.map fun e => (.key e.1, s)
  | .gotoElement k => (s.gotoKey p k).map fun (code, s) => (.status code, s)
  | .hasElement k => (withIndex p k false (s.hasKey k)).map fun b => (.bool b, s)
  | .gotoNextElement => s.gotoNext.map fun s => (.void, s)
  | .gotoPreviousElement => s.gotoPrevious.map fun s => (.void, s)
  | .clear => some (.void, s.clear)
  | .addElement k elem allocated =>
    (s.add p k elem allocated).map fun (code, s) => (.status code, s)
  | .deleteElement k => (s.delete p k).map fun (code, s) => (.status code, s)

end

end Entries

/-! ## Elements in memory -/

/-- An element and its address. -/
structure Node (K V : Type) where
  ref : Ref
  key : K
  element : V

section
variable {K V : Type} (p : TableParams K)

/-- The entry of an element. -/
def Node.entry (n : Node K V) : K × V := (n.key, n.element)

/-- The addresses of the elements. -/
def refs (nodes : List (Node K V)) : List Ref := nodes.map Node.ref

/-- The keys of the elements. -/
def keys (nodes : List (Node K V)) : List K := nodes.map Node.key

/-- The elements of a bucket, oldest first: its chain runs the other way. -/
def bucket (nodes : List (Node K V)) (index : ℤ) : List (Node K V) :=
  nodes.filter (p.getIndex ·.key = index)

/-- An element with all its links. -/
def cell (nodes : List (Node K V)) (n : Node K V) : HashElement K V where
  hashindex := p.getIndex n.key
  key := n.key
  element := n.element
  hashprev := nextIn (refs (bucket p nodes (p.getIndex n.key))) n.ref
  hashnext := prevIn (refs (bucket p nodes (p.getIndex n.key))) n.ref
  listprev := prevIn (refs nodes) n.ref
  listnext := nextIn (refs nodes) n.ref

/-- The elements on the heap. -/
def cells (nodes : List (Node K V)) (r : Ref) : Option (HashElement K V) :=
  (nodes.find? (·.ref = r)).map (cell p nodes)

/-- The table that a list of elements makes in memory. -/
def layout (nodes : List (Node K V)) (fresh : ℕ) (cur : Option (Option Ref)) : HashTable K V where
  heap := cells p nodes
  fresh := fresh
  table index := (refs (bucket p nodes index)).getLast?
  firsthashelem := (refs nodes).head?
  lasthashelem := (refs nodes).getLast?
  curhashelem := cur

/-- Addresses and keys are distinct, all indices are in the table, and new addresses are free. -/
structure WellFormed (nodes : List (Node K V)) (fresh : ℕ) : Prop where
  nodupRefs : (refs nodes).Nodup
  nodupKeys : (keys nodes).Nodup
  lt_fresh : ∀ n ∈ nodes, n.ref < fresh
  inTable : ∀ n ∈ nodes, HashTable.InTable p (p.getIndex n.key)

/-- What `curhashelem` holds at a position. -/
def PointsTo (nodes : List (Node K V)) (fresh : ℕ) : Position → Option (Option Ref) → Prop
  | .indeterminate, cur => cur = none
  | .dangling, cur => ∃ r, cur = some (some r) ∧ r < fresh ∧ r ∉ refs nodes
  | .null, cur => cur = some none
  | .index i, cur => ∃ r, cur = some (some r) ∧ (refs nodes)[i]? = some r

/-- A table in memory, and what it is seen as. -/
def Represents (t : HashTable K V) (s : Entries K V) : Prop :=
  ∃ nodes fresh cur, t = layout p nodes fresh cur ∧ WellFormed p nodes fresh ∧
    s.entries = nodes.map Node.entry ∧ PointsTo nodes fresh s.cursor cur

end

end RayionClient
