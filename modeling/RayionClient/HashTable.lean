/-
  rtpkeyhashtable.h, rtphashtable.h — the hash tables of jrtplib.

  The elements of a table are linked twice: in the chain of their bucket, and in
  one list through all of them, in which the current element moves.  Pointers are
  numbers that are never reused, the null pointer is `none`.  An operation has no
  result (`none`) where it uses a null pointer, a pointer to a deleted element or
  an indeterminate one, or an entry outside `table`.

  `RTPHashTable` is `RTPKeyHashTable` with the elements as keys, and error codes of
  its own.
-/
import RayionClient.Errors
import Mathlib.Data.Int.Notation
import Mathlib.Data.Nat.Notation
import Mathlib.Logic.Function.Basic
import Mathlib.Tactic.Common

namespace RayionClient

/-- A pointer to an element that has been allocated at some time. -/
abbrev Ref := ℕ

/-- `HashElement`: two links for the bucket, and two for the list. -/
@[ext] structure HashElement (K V : Type) where
  hashindex : ℤ
  key : K
  element : V
  hashprev : Option Ref
  hashnext : Option Ref
  listprev : Option Ref
  listnext : Option Ref

/-- `GetIndex` and `hashsize`, and the error codes of the template. -/
structure TableParams (K : Type) where
  getIndex : K → ℤ
  hashsize : ℕ
  alreadyExists : ℤ
  notFound : ℤ
  invalidHashIndex : ℤ
  noCurrentElement : ℤ
  alreadyExists_neg : alreadyExists < 0
  notFound_neg : notFound < 0
  invalidHashIndex_neg : invalidHashIndex < 0
  noCurrentElement_neg : noCurrentElement < 0

/-- `RTPHashTable`. -/
def hashTable {K : Type} (getIndex : K → ℤ) (hashsize : ℕ) : TableParams K :=
  ⟨getIndex, hashsize, -4, -5, -6, -7, by omega, by omega, by omega, by omega⟩

/-- `RTPKeyHashTable`. -/
def keyHashTable {K : Type} (getIndex : K → ℤ) (hashsize : ℕ) : TableParams K :=
  ⟨getIndex, hashsize, -9, -10, -8, -11, by omega, by omega, by omega, by omega⟩

/-- A table and its elements on the heap; `fresh` elements have been allocated so far.
    `curhashelem` is `none` while it is indeterminate. -/
structure HashTable (K V : Type) where
  heap : Ref → Option (HashElement K V)
  fresh : ℕ
  table : ℤ → Option Ref
  firsthashelem : Option Ref
  lasthashelem : Option Ref
  curhashelem : Option (Option Ref)

namespace HashTable
variable {K V : Type}

/-- The constructor does not set `curhashelem`. -/
def new : HashTable K V := ⟨fun _ => none, 0, fun _ => none, none, none, none⟩

/-- `e->field = ..` -/
def modify (t : HashTable K V) (e : Ref) (f : HashElement K V → HashElement K V) :
    Option (HashTable K V) :=
  (t.heap e).map fun x => { t with heap := Function.update t.heap e (some (f x)) }

/-- `if (e != 0) e->field = ..` -/
def modifyIf (t : HashTable K V) (e : Option Ref) (f : HashElement K V → HashElement K V) :
    Option (HashTable K V) :=
  match e with
  | none => some t
  | some e => t.modify e f

section
variable (p : TableParams K)

/-- The entries of `table`. -/
def InTable (index : ℤ) : Prop := 0 ≤ index ∧ index < p.hashsize

/-- The bounds can be computed. -/
instance (index : ℤ) : Decidable (InTable p index) :=
  inferInstanceAs (Decidable (0 ≤ index ∧ index < p.hashsize))

/-- `table[index]` -/
def getTable (t : HashTable K V) (index : ℤ) : Option (Option Ref) :=
  if InTable p index then some (t.table index) else none

/-- `table[index] = e` -/
def setTable (t : HashTable K V) (index : ℤ) (e : Option Ref) : Option (HashTable K V) :=
  if InTable p index then some { t with table := Function.update t.table index e } else none

/-- `while (!found && e != 0)`, with at most `n` rounds left: the first element of a chain that
    has the key. -/
def findKey [DecidableEq K] (heap : Ref → Option (HashElement K V)) (k : K) :
    ℕ → Option Ref → Option (Option Ref)
  | _, none => some none
  | 0, some _ => none
  | n + 1, some e => do
    let x ← heap e
    if x.key = k then return some e else findKey heap k n x.hashnext

/-! ## The current element -/

/-- `GotoFirstElement`. -/
def gotoFirstElement (t : HashTable K V) : HashTable K V :=
  { t with curhashelem := some t.firsthashelem }

/-- `GotoLastElement`. -/
def gotoLastElement (t : HashTable K V) : HashTable K V :=
  { t with curhashelem := some t.lasthashelem }

/-- `HasCurrentElement`. -/
def hasCurrentElement (t : HashTable K V) : Option Bool := t.curhashelem.map (·.isSome)

/-- `curhashelem->..` -/
def current (t : HashTable K V) : Option (HashElement K V) := do
  let cur ← t.curhashelem
  let cur ← cur
  t.heap cur

/-- `GetCurrentElement`. -/
def getCurrentElement (t : HashTable K V) : Option V := t.current.map (·.element)

/-- `GetCurrentKey`. -/
def getCurrentKey (t : HashTable K V) : Option K := t.current.map (·.key)

/-- `GotoNextElement`. -/
def gotoNextElement (t : HashTable K V) : Option (HashTable K V) := do
  let cur ← t.curhashelem
  match cur with
  | none => return t
  | some cur =>
    let x ← t.heap cur
    return { t with curhashelem := some x.listnext }

/-- `GotoPreviousElement`. -/
def gotoPreviousElement (t : HashTable K V) : Option (HashTable K V) := do
  let cur ← t.curhashelem
  match cur with
  | none => return t
  | some cur =>
    let x ← t.heap cur
    return { t with curhashelem := some x.listprev }

/-- The first part of `DeleteCurrentElement`: relink the bucket. -/
def relinkBucket (t : HashTable K V) (cur : Ref) : Option (HashTable K V) := do
  let x ← t.heap cur
  match x.hashprev with
  | none =>
    let t ← t.setTable p x.hashindex x.hashnext
    t.modifyIf x.hashnext fun y => { y with hashprev := none }
  | some tmp1 =>
    let t ← t.modify tmp1 fun y => { y with hashnext := x.hashnext }
    t.modifyIf x.hashnext fun y => { y with hashprev := some tmp1 }

/-- The second part: relink the list. -/
def relinkList (t : HashTable K V) (cur : Ref) : Option (HashTable K V) := do
  let x ← t.heap cur
  match x.listprev with
  | none =>
    let t := { t with firsthashelem := x.listnext }
    match x.listnext with
    | some tmp2 => t.modify tmp2 fun y => { y with listprev := none }
    | none => return { t with lasthashelem := none }
  | some tmp1 =>
    let t ← t.modify tmp1 fun y => { y with listnext := x.listnext }
    match x.listnext with
    | some tmp2 => t.modify tmp2 fun y => { y with listprev := some tmp1 }
    | none => return { t with lasthashelem := some tmp1 }

/-- `RTPDelete(e)` -/
def delete (t : HashTable K V) (e : Ref) : Option (HashTable K V) :=
  (t.heap e).map fun _ => { t with heap := Function.update t.heap e none }

/-- `DeleteCurrentElement`: the next element becomes the current one. -/
def deleteCurrentElement (t : HashTable K V) : Option (ℤ × HashTable K V) := do
  let cur ← t.curhashelem
  match cur with
  | none => return (p.noCurrentElement, t)
  | some cur =>
    let t ← t.relinkBucket p cur
    let x ← t.heap cur
    let tmp2 := x.listnext
    let t ← t.relinkList cur
    let t ← t.delete cur
    return (0, { t with curhashelem := some tmp2 })

/-! ## Keys -/

variable [DecidableEq K]

/-- `GotoElement`; only the upper bound of the index is checked. -/
def gotoElement (k : K) (t : HashTable K V) : Option (ℤ × HashTable K V) :=
  let index := p.getIndex k
  if index ≥ p.hashsize then some (p.invalidHashIndex, t)
  else do
    let cur ← t.getTable p index
    let cur ← findKey t.heap k t.fresh cur
    return (if cur = none then p.notFound else 0, { t with curhashelem := some cur })

/-- `HasElement`. -/
def hasElement (k : K) (t : HashTable K V) : Option Bool :=
  let index := p.getIndex k
  if index ≥ p.hashsize then some false
  else do
    let tmp ← t.getTable p index
    let tmp ← findKey t.heap k t.fresh tmp
    return tmp.isSome

/-- The end of `AddElement`: the new element is put at the end of the list. -/
def linkList (t : HashTable K V) (newelem : Ref) : Option (HashTable K V) :=
  if t.firsthashelem = none then
    some { t with firsthashelem := some newelem, lasthashelem := some newelem }
  else do
    let last ← t.lasthashelem
    let t ← t.modify last fun y => { y with listnext := some newelem }
    let t ← t.modify newelem fun y => { y with listprev := some last }
    return { t with lasthashelem := some newelem }

/-- `allocated` tells whether the memory manager has found memory. -/
def addElement (k : K) (elem : V) (allocated : Bool) (t : HashTable K V) :
    Option (ℤ × HashTable K V) :=
  let index := p.getIndex k
  if index ≥ p.hashsize then some (p.invalidHashIndex, t)
  else do
    let e ← t.getTable p index
    let found ← findKey t.heap k t.fresh e
    if found ≠ none then return (p.alreadyExists, t)
    if !allocated then return (outOfMem, t)
    let newelem := t.fresh
    let t := { t with
      heap := Function.update t.heap newelem (some ⟨index, k, elem, none, none, none, none⟩)
      fresh := t.fresh + 1 }
    let e ← t.getTable p index
    let t ← t.setTable p index (some newelem)
    let t ← t.modify newelem fun y => { y with hashnext := e }
    let t ← t.modifyIf e fun y => { y with hashprev := some newelem }
    let t ← t.linkList newelem
    return (0, t)

/-- `DeleteElement`. -/
def deleteElement (k : K) (t : HashTable K V) : Option (ℤ × HashTable K V) := do
  let (status, t) ← t.gotoElement p k
  if status < 0 then return (status, t)
  t.deleteCurrentElement p

end

/-- `while (tmp1 != 0)`, with at most `n` rounds left: the elements of a list are deleted. -/
def deleteAll : ℕ → Option Ref → (Ref → Option (HashElement K V)) →
    Option (Ref → Option (HashElement K V))
  | _, none, heap => some heap
  | 0, some _, _ => none
  | n + 1, some tmp1, heap => do
    let x ← heap tmp1
    deleteAll n x.listnext (Function.update heap tmp1 none)

/-- `Clear` leaves `curhashelem` as it is. -/
def clear (t : HashTable K V) : Option (HashTable K V) := do
  let heap ← deleteAll t.fresh t.firsthashelem t.heap
  return { t with
    heap := heap, table := fun _ => none, firsthashelem := none, lasthashelem := none }

end HashTable

/-! ## Operations -/

/-- The operations, with their arguments. -/
inductive TableOp (K V : Type) where
  | gotoFirstElement
  | gotoLastElement
  | hasCurrentElement
  | deleteCurrentElement
  | getCurrentElement
  | getCurrentKey
  | gotoElement (k : K)
  | hasElement (k : K)
  | gotoNextElement
  | gotoPreviousElement
  | clear
  | addElement (k : K) (elem : V) (allocated : Bool)
  | deleteElement (k : K)

/-- What they return. -/
inductive TableResult (K V : Type) where
  | void
  | status (code : ℤ)
  | bool (b : Bool)
  | element (elem : V)
  | key (k : K)

/-- One operation. -/
def HashTable.perform {K V : Type} [DecidableEq K] (p : TableParams K) (t : HashTable K V) :
    TableOp K V → Option (TableResult K V × HashTable K V)
  | .gotoFirstElement => some (.void, t.gotoFirstElement)
  | .gotoLastElement => some (.void, t.gotoLastElement)
  | .hasCurrentElement => t.hasCurrentElement.map fun b => (.bool b, t)
  | .deleteCurrentElement => (t.deleteCurrentElement p).map fun (code, t) => (.status code, t)
  | .getCurrentElement => t.getCurrentElement.map fun elem => (.element elem, t)
  | .getCurrentKey => t.getCurrentKey.map fun k => (.key k, t)
  | .gotoElement k => (t.gotoElement p k).map fun (code, t) => (.status code, t)
  | .hasElement k => (t.hasElement p k).map fun b => (.bool b, t)
  | .gotoNextElement => t.gotoNextElement.map fun t => (.void, t)
  | .gotoPreviousElement => t.gotoPreviousElement.map fun t => (.void, t)
  | .clear => t.clear.map fun t => (.void, t)
  | .addElement k elem allocated =>
    (t.addElement p k elem allocated).map fun (code, t) => (.status code, t)
  | .deleteElement k => (t.deleteElement p k).map fun (code, t) => (.status code, t)

end RayionClient
