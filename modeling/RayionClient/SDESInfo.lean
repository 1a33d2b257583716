/-
  rtcpsdesinfo.h — the class `RTCPSDESInfo`, which keeps the items that describe a source.

  Each item is an array of its own on the heap.  `RTCPSDESInfo.performAll_holds`: whatever
  items are set, and whether or not there is memory, each item is what it has been set to
  last, and the arrays on the heap are those of the items, no two of them the same.
  `RTCPSDESInfo.destroy_eq`: when the items are destroyed, no array is left.
-/
import RayionClient.Errors
import RayionClient.Base.Ownership

namespace RayionClient

open Base

/-- `ERR_RTP_SDES_LENGTHTOOBIG` -/
def lengthTooBig : ℤ := -55

/-- `RTCP_SDES_MAXITEMLENGTH` -/
def maxItemLength : ℕ := 255

/-- The positions in `nonprivateitems`. -/
inductive ItemNo where
  | cname
  | name
  | email
  | phone
  | location
  | tool
  | note
  deriving DecidableEq

/-- All positions, in the order of the array. -/
def ItemNo.all : List ItemNo := [.cname, .name, .email, .phone, .location, .tool, .note]

/-- `SDESItem`: an array, and its length. -/
structure SDESItem where
  str : Option ℕ
  length : ℕ

/-- `RTCPSDESInfo`, and the arrays on the heap. -/
structure RTCPSDESInfo where
  heap : Heap (List UInt8)
  nonprivateitems : ItemNo → SDESItem

/-- The bytes that a caller passes: of its own, or those that the getter of an item returns. -/
inductive ItemSource where
  | bytes (s : List UInt8)
  | item (itemno : ItemNo)

namespace RTCPSDESInfo

/-- The constructor. -/
def new : RTCPSDESInfo := ⟨Heap.empty, fun _ => ⟨none, 0⟩⟩

variable (info : RTCPSDESInfo)

/-- The `len` bytes at a source, if there are so many. -/
def read (s : ItemSource) (len : ℕ) : Option (List UInt8) := do
  let s ← match s with
    | .bytes s => some s
    | .item itemno => (info.nonprivateitems itemno).str.bind info.heap.cells
  if len ≤ s.length then some (s.take len) else none

/-- `SetString`; `allocated`: whether there was memory for the array, which is filled at once. -/
def setInfo (itemno : ItemNo) (s : ItemSource) (len : ℕ) (allocated : Bool) :
    Option (ℤ × RTCPSDESInfo) :=
  let item := info.nonprivateitems itemno
  if len ≤ 0 then do
    let heap ← info.heap.deleteIf item.str
    return (0, ⟨heap, Function.update info.nonprivateitems itemno ⟨none, 0⟩⟩)
  else
    let len := if len > maxItemLength then maxItemLength else len
    if !allocated then some (outOfMem, info)
    else do
      let (str2, heap) := info.heap.alloc (← info.read s len)
      let heap ← heap.deleteIf item.str
      return (0, ⟨heap, Function.update info.nonprivateitems itemno ⟨some str2, len⟩⟩)

/-- `SetNonPrivateItem`. -/
def setNonPrivateItem (itemno : ItemNo) (s : ItemSource) (l : ℕ) (allocated : Bool) :
    Option (ℤ × RTCPSDESInfo) :=
  if l > maxItemLength then some (lengthTooBig, info) else info.setInfo itemno s l allocated

/-- The pointer, and what is stored in `len`. -/
def getNonPrivateItem (itemno : ItemNo) : Option ℕ × ℕ :=
  ((info.nonprivateitems itemno).str, (info.nonprivateitems itemno).length)

/-- `SetCNAME`. -/
def setCNAME : ItemSource → ℕ → Bool → Option (ℤ × RTCPSDESInfo) :=
  info.setNonPrivateItem .cname

/-- `SetName`. -/
def setName : ItemSource → ℕ → Bool → Option (ℤ × RTCPSDESInfo) :=
  info.setNonPrivateItem .name

/-- `SetEMail`. -/
def setEMail : ItemSource → ℕ → Bool → Option (ℤ × RTCPSDESInfo) :=
  info.setNonPrivateItem .email

/-- `SetPhone`. -/
def setPhone : ItemSource → ℕ → Bool → Option (ℤ × RTCPSDESInfo) :=
  info.setNonPrivateItem .phone

/-- `SetLocation`. -/
def setLocation : ItemSource → ℕ → Bool → Option (ℤ × RTCPSDESInfo) :=
  info.setNonPrivateItem .location

/-- `SetTool`. -/
def setTool : ItemSource → ℕ → Bool → Option (ℤ × RTCPSDESInfo) :=
  info.setNonPrivateItem .tool

/-- `SetNote`. -/
def setNote : ItemSource → ℕ → Bool → Option (ℤ × RTCPSDESInfo) :=
  info.setNonPrivateItem .note

/-- `GetCNAME`. -/
def getCNAME : Option ℕ × ℕ := info.getNonPrivateItem .cname

/-- `GetName`. -/
def getName : Option ℕ × ℕ := info.getNonPrivateItem .name

/-- `GetEMail`. -/
def getEMail : Option ℕ × ℕ := info.getNonPrivateItem .email

/-- `GetPhone`. -/
def getPhone : Option ℕ × ℕ := info.getNonPrivateItem .phone

/-- `GetLocation`. -/
def getLocation : Option ℕ × ℕ := info.getNonPrivateItem .location

/-- `GetTool`. -/
def getTool : Option ℕ × ℕ := info.getNonPrivateItem .tool

/-- `GetNote`. -/
def getNote : Option ℕ × ℕ := info.getNonPrivateItem .note

/-- What the getter of an item returns. -/
def get : ItemNo → Option ℕ × ℕ
  | .cname => info.getCNAME
  | .name => info.getName
  | .email => info.getEMail
  | .phone => info.getPhone
  | .location => info.getLocation
  | .tool => info.getTool
  | .note => info.getNote

theorem get_eq (itemno : ItemNo) : info.get itemno = info.getNonPrivateItem itemno := by
  cases itemno <;> rfl

/-- The destructors of some of the items.  The array is destroyed from the last one to the first. -/
def destroy (h : Heap (List UInt8)) : List ItemNo → Option (Heap (List UInt8))
  | [] => some h
  | itemno :: l => do
    let h ← h.deleteIf (info.nonprivateitems itemno).str
    destroy h l

end RTCPSDESInfo

/-- The arguments of one of the setters. -/
structure SetItem where
  itemno : ItemNo
  s : ItemSource
  l : ℕ
  allocated : Bool

/-- One call. -/
def RTCPSDESInfo.perform (info : RTCPSDESInfo) (c : SetItem) : Option (ℤ × RTCPSDESInfo) :=
  match c.itemno with
  | .cname => info.setCNAME c.s c.l c.allocated
  | .name => info.setName c.s c.l c.allocated
  | .email => info.setEMail c.s c.l c.allocated
  | .phone => info.setPhone c.s c.l c.allocated
  | .location => info.setLocation c.s c.l c.allocated
  | .tool => info.setTool c.s c.l c.allocated
  | .note => info.setNote c.s c.l c.allocated

/-- One call after the other, with what they return. -/
def RTCPSDESInfo.performAll (info : RTCPSDESInfo) : List SetItem → Option (List ℤ × RTCPSDESInfo)
  | [] => some ([], info)
  | c :: calls => do
    let (status, info) ← info.perform c
    let (statuses, info) ← info.performAll calls
    return (status :: statuses, info)

/-! ## The values of the items -/

/-- The bytes of a source. -/
def ItemSource.get (values : ItemNo → List UInt8) : ItemSource → List UInt8
  | .bytes s => s
  | .item itemno => values itemno

/-- One call, on the values; an item without bytes is not there. -/
def setValue (values : ItemNo → List UInt8) (c : SetItem) : ℤ × (ItemNo → List UInt8) :=
  if c.l > maxItemLength then (lengthTooBig, values)
  else if c.l = 0 then (0, Function.update values c.itemno [])
  else if !c.allocated then (outOfMem, values)
  else (0, Function.update values c.itemno ((c.s.get values).take c.l))

/-- One call after the other, on the values. -/
def setAllValues (values : ItemNo → List UInt8) : List SetItem → List ℤ × (ItemNo → List UInt8)
  | [] => ([], values)
  | c :: calls =>
    let (status, values) := setValue values c
    let (statuses, values) := setAllValues values calls
    (status :: statuses, values)

/-- Every call passes as many bytes as it says. -/
def Readable (values : ItemNo → List UInt8) : List SetItem → Prop
  | [] => True
  | c :: calls => c.l ≤ (c.s.get values).length ∧ Readable (setValue values c).2 calls

namespace RTCPSDESInfo

/-- The pointers of the items. -/
def strs (info : RTCPSDESInfo) : ItemNo → Option ℕ := SDESItem.str ∘ info.nonprivateitems

/-- The items have these values, and the arrays on the heap are theirs. -/
structure Holds (info : RTCPSDESInfo) (values : ItemNo → List UInt8) : Prop where
  owns : Owns info.heap info.strs []
  contents : contents info.heap info.strs = fun j => if values j = [] then none else some (values j)
  length : ∀ j, (info.nonprivateitems j).length = (values j).length

variable {info : RTCPSDESInfo} {values : ItemNo → List UInt8}

theorem holds_new : Holds new fun _ => [] where
  owns := owns_empty
  contents := rfl
  length _ := rfl

theorem strs_update (h : Heap (List UInt8)) (itemno : ItemNo) (item : SDESItem) :
    strs ⟨h, Function.update info.nonprivateitems itemno item⟩ =
      Function.update info.strs itemno item.str :=
  Function.comp_update _ _ _ _

theorem Holds.read (hi : Holds info values) {s : ItemSource} {l : ℕ} (hpos : 0 < l)
    (hle : l ≤ (s.get values).length) : info.read s l = some ((s.get values).take l) := by
  cases s with
  | bytes s => simp only [RTCPSDESInfo.read, Option.bind_eq_bind, Option.bind_some, if_pos
      (show l ≤ s.length from hle)]; rfl
  | item j =>
    have hle : l ≤ (values j).length := hle
    have hne : values j ≠ [] := by
      intro hnil
      rw [hnil] at hle; exact absurd hle (Nat.not_le.2 hpos)
    have hget : (info.nonprivateitems j).str.bind info.heap.cells = some (values j) := by
      have hj := congrFun hi.contents j
      rwa [if_neg hne] at hj
    simp only [RTCPSDESInfo.read, hget, Option.bind_eq_bind, Option.bind_some, if_pos hle]; rfl

/-- The items after one of them has been given an array, or none. -/
theorem Holds.update (hi : Holds info values) {h : Heap (List UInt8)} {itemno : ItemNo}
    (item : SDESItem) (value : List UInt8)
    (howns : Owns h (Function.update info.strs itemno item.str) [])
    (hcon : Base.contents h (Function.update info.strs itemno item.str) =
      Function.update (Base.contents info.heap info.strs) itemno
        (if value = [] then none else some value)) (hlen : item.length = value.length) :
    Holds ⟨h, Function.update info.nonprivateitems itemno item⟩
      (Function.update values itemno value) := by
  refine ⟨by rw [strs_update]; exact howns, ?_, fun j => ?_⟩
  · rw [strs_update, hcon, hi.contents]
    funext j
    rcases eq_or_ne j itemno with rfl | hj
    · simp
    · simp [Function.update_of_ne hj]
  · rcases eq_or_ne j itemno with rfl | hj
    · simpa using hlen
    · simpa [Function.update_of_ne hj] using hi.length j

theorem setInfo_alloc (itemno : ItemNo) {s : ItemSource} {l : ℕ} (hpos : 0 < l)
    (hle : l ≤ maxItemLength) {bytes : List UInt8} (hread : info.read s l = some bytes)
    {h : Heap (List UInt8)}
    (hdel : (info.heap.alloc bytes).2.deleteIf (info.nonprivateitems itemno).str = some h) :
    info.setInfo itemno s l true = some (0, ⟨h, Function.update info.nonprivateitems itemno
      ⟨some info.heap.fresh, l⟩⟩) := by
  rw [setInfo, if_neg (by omega)]
  simp only [if_neg (Nat.not_lt.2 hle), Bool.not_true, Bool.false_eq_true, if_false, hread,
    Option.bind_eq_bind, Option.bind_some]
  rw [show (info.heap.alloc bytes).2.deleteIf _ = _ from hdel]
  rfl

/-- One call sets the value, and deletes the array of the old one. -/
theorem Holds.step (hi : Holds info values) {c : SetItem} (hle : c.l ≤ (c.s.get values).length) :
    ∃ info', info.perform c = some ((setValue values c).1, info') ∧
      Holds info' (setValue values c).2 := by
  have hperform : info.perform c = info.setNonPrivateItem c.itemno c.s c.l c.allocated := by
    rw [perform]; cases c.itemno <;> rfl
  rw [hperform, setNonPrivateItem, setValue]
  split_ifs with hbig hzero halloc
  · exact ⟨info, rfl, hi⟩
  · -- the item is emptied
    obtain ⟨h, hdel, howns, hcon⟩ := hi.owns.drop c.itemno
    refine ⟨_, ?_, hi.update ⟨none, 0⟩ [] howns hcon rfl⟩
    have hdel : info.heap.deleteIf (info.nonprivateitems c.itemno).str = some h := hdel
    rw [setInfo, if_pos (Nat.le_of_eq hzero), hdel]
    rfl
  · -- there is no memory
    refine ⟨info, ?_, hi⟩
    rw [setInfo, if_neg (by omega)]
    simp only [halloc, if_true]
  · -- there is a new array, and the item takes it before the old one is deleted
    have hpos : 0 < c.l := Nat.pos_of_ne_zero hzero
    have hread := hi.read hpos hle
    have hlen : ((c.s.get values).take c.l).length = c.l := by
      rw [List.length_take, Nat.min_eq_left hle]
    have hne : (c.s.get values).take c.l ≠ [] := by
      intro hnil
      rw [hnil] at hlen; exact hzero hlen.symm
    obtain ⟨h, hdel, howns, hcon⟩ := hi.owns.replace c.itemno ((c.s.get values).take c.l)
    refine ⟨_, ?_, hi.update ⟨some info.heap.fresh, c.l⟩ _ howns
      (by rw [if_neg hne]; exact hcon) hlen.symm⟩
    rw [(by simpa using halloc : c.allocated = true)]
    exact setInfo_alloc c.itemno hpos (Nat.not_lt.1 hbig) hread hdel

theorem Holds.performAll (hi : Holds info values) {calls : List SetItem}
    (hcalls : Readable values calls) : ∃ info',
    info.performAll calls = some ((setAllValues values calls).1, info') ∧
      Holds info' (setAllValues values calls).2 := by
  induction calls generalizing info values with
  | nil => exact ⟨info, rfl, hi⟩
  | cons c calls ih =>
    obtain ⟨hle, hcalls⟩ := hcalls
    obtain ⟨info', hstep, hi'⟩ := hi.step hle
    obtain ⟨info'', hrun, hi''⟩ := ih hi' hcalls
    refine ⟨info'', ?_, hi''⟩
    rw [RTCPSDESInfo.performAll, hstep]
    simp only [Option.bind_eq_bind, Option.bind_some, hrun]
    rfl

/-- A getter returns the value, and the null pointer if there is none. -/
theorem Holds.get (hi : Holds info values) (itemno : ItemNo) :
    (info.get itemno).2 = (values itemno).length ∧
      ((info.get itemno).1 = none ↔ values itemno = []) ∧
      ∀ p, (info.get itemno).1 = some p → info.heap.cells p = some (values itemno) := by
  have hcon := congrFun hi.contents itemno
  rw [get_eq]
  refine ⟨hi.length itemno, ?_, fun p hp => ?_⟩
  · have hnone := hi.owns.contents_eq_none_iff (i := itemno)
    rw [hcon] at hnone
    refine hnone.symm.trans ?_
    split_ifs with h <;> simp [h]
  · rw [Base.contents, show info.strs itemno = some p from hp] at hcon
    obtain ⟨b, hb⟩ := hi.owns.live hp
    rw [Option.bind_some, hb] at hcon
    split_ifs at hcon
    rw [hb, hcon]

/-- **After any calls**, with whatever memory there was, the items are what they have been set to
    last, and the arrays on the heap are theirs. -/
theorem performAll_holds {calls : List SetItem} (hcalls : Readable (fun _ => []) calls) :
    ∃ info, new.performAll calls = some ((setAllValues (fun _ => []) calls).1, info) ∧
      (∀ itemno, (info.get itemno).2 =
          ((setAllValues (fun _ => []) calls).2 itemno).length ∧
        ((info.get itemno).1 = none ↔
          (setAllValues (fun _ => []) calls).2 itemno = []) ∧
        ∀ p, (info.get itemno).1 = some p →
          info.heap.cells p = some ((setAllValues (fun _ => []) calls).2 itemno)) ∧
      ∀ p, (info.heap.cells p).isSome → ∃! itemno, (info.get itemno).1 = some p := by
  obtain ⟨info, hrun, hi⟩ := holds_new.performAll hcalls
  refine ⟨info, hrun, hi.get, fun p hp => ?_⟩
  simp only [get_eq]
  rcases (hi.owns.live_iff p).1 hp with ⟨itemno, hitem⟩ | hloose
  · exact ⟨itemno, hitem, fun j hj => hi.owns.slots_inj j itemno p hj hitem⟩
  · cases hloose

/-- A name is cut short with its own bytes, and there is no memory for a note. -/
def ownBytes : List SetItem :=
  [⟨.name, .bytes [97, 98], 2, true⟩, ⟨.name, .item .name, 1, true⟩, ⟨.note, .bytes [99], 1, false⟩]

theorem readable_ownBytes : Readable (fun _ => []) ownBytes := by
  refine ⟨?_, ?_, ?_, trivial⟩ <;> decide

theorem performAll_holds_ownBytes : ∃ info, new.performAll ownBytes = some ([0, 0, -1], info) ∧
    ∃ p, (info.get .name).1 = some p ∧ info.heap.cells p = some [97] := by
  obtain ⟨info, hrun, hget, -⟩ := performAll_holds readable_ownBytes
  obtain ⟨-, hnull, hdata⟩ := hget .name
  refine ⟨info, hrun, ?_⟩
  cases hp : (info.get .name).1 with
  | none => exact absurd (hnull.1 hp) (by decide)
  | some p => exact ⟨p, rfl, hdata p hp⟩

/-! ## The end of the items -/

/-- The items that have not been destroyed yet own what is left. -/
theorem owns_destroy (info : RTCPSDESInfo) {h : Heap (List UInt8)} {slots : ItemNo → Option ℕ}
    (l : List ItemNo) (howns : Owns h slots []) (hslots : ∀ j ∈ l, slots j = info.strs j)
    (hnodup : l.Nodup) :
    ∃ h', info.destroy h l = some h' ∧
      Owns h' (fun j => if j ∈ l then none else slots j) [] := by
  induction l generalizing h slots with
  | nil => exact ⟨h, rfl, by simpa using howns⟩
  | cons itemno l ih =>
    obtain ⟨hnot, hnodup⟩ := List.nodup_cons.1 hnodup
    obtain ⟨h', hdel, howns', -⟩ := howns.drop itemno
    have hrest : ∀ j ∈ l, Function.update slots itemno none j = info.strs j := by
      intro j hj
      have hne : j ≠ itemno := by rintro rfl; exact hnot hj
      rw [Function.update_of_ne hne]
      exact hslots j (List.mem_cons_of_mem _ hj)
    obtain ⟨h'', hdestroy, howns''⟩ := ih howns' hrest hnodup
    refine ⟨h'', ?_, ?_⟩
    · have hitem : h.deleteIf (info.nonprivateitems itemno).str = some h' := by
        rw [← hdel, hslots itemno (List.mem_cons_self ..)]; rfl
      rw [destroy, hitem]; exact hdestroy
    · have hfun : (fun j => if j ∈ itemno :: l then none else slots j) =
          fun j => if j ∈ l then none else Function.update slots itemno none j := by
        funext j
        rcases eq_or_ne j itemno with rfl | hj
        · simp
        · simp [hj]
      rw [hfun]; exact howns''

/-- **No array is left** when the items are destroyed after any calls. -/
theorem destroy_eq {calls : List SetItem} (hcalls : Readable (fun _ => []) calls) :
    ∃ statuses info h, new.performAll calls = some (statuses, info) ∧
      info.destroy info.heap ItemNo.all.reverse = some h ∧ ∀ p, h.cells p = none := by
  obtain ⟨info, hrun, hi⟩ := holds_new.performAll hcalls
  obtain ⟨h, hdestroy, howns⟩ := owns_destroy info ItemNo.all.reverse hi.owns (fun _ _ => rfl)
    (by decide)
  refine ⟨_, info, h, hrun, hdestroy, fun p => ?_⟩
  by_contra hp
  rcases (howns.live_iff p).1 (Option.isSome_iff_ne_none.2 hp) with ⟨j, hj⟩ | hloose
  · have hall : j ∈ ItemNo.all.reverse := by cases j <;> decide
    rw [if_pos hall] at hj; cases hj
  · cases hloose

theorem destroy_eq_ownBytes : ∃ statuses info h, new.performAll ownBytes = some (statuses, info) ∧
    info.destroy info.heap ItemNo.all.reverse = some h ∧ ∀ p, h.cells p = none :=
  destroy_eq readable_ownBytes

end RTCPSDESInfo

end RayionClient
