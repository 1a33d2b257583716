/-
  What a source description packet says, and its bytes.

  A packet carries chunks, each with a source and a list of items (`Carries`,
  `carries_sdesPacket`).  `SDESView` is what the class `RTCPSDESPacket` shows of it: the
  chunks, and the current chunk and item by their positions.
-/
import RayionClient.SDESPacket

namespace RayionClient

open Base

/-! ## Bytes -/

/-- A source, its items, and zero bytes up to a multiple of four. -/
structure Chunk where
  ssrc : UInt32
  items : List Record

/-- The zero bytes behind the items: one to four, up to a 32-bit boundary. -/
def Chunk.padding (c : Chunk) : List UInt8 :=
  0 :: List.replicate (3 - (recordBytes c.items).length % 4) 0

/-- The bytes of a chunk. -/
def Chunk.bytes (c : Chunk) : List UInt8 := be32 c.ssrc ++ (recordBytes c.items ++ c.padding)

/-- The chunks, one behind the other. -/
def chunkBytes (chunks : List Chunk) : List UInt8 := chunks.flatMap Chunk.bytes

/-- A packet carries chunks: their number is in the header, and they are behind it. -/
structure Carries (data : List UInt8) (chunks : List Chunk) : Prop where
  count : headerCount data = some ↑chunks.length
  chunks : At data sizeofCommonHeader (chunkBytes chunks)

/-- A packet, and whatever is behind the chunks. -/
def sdesPacket (chunks : List Chunk) (rest : List UInt8) : List UInt8 :=
  commonHeader chunks.length 202 (chunkBytes chunks).length ++ (chunkBytes chunks ++ rest)

theorem chunkBytes_append (l l' : List Chunk) :
    chunkBytes (l ++ l') = chunkBytes l ++ chunkBytes l' := List.flatMap_append

theorem chunkBytes_cons (c : Chunk) (l : List Chunk) :
    chunkBytes (c :: l) = c.bytes ++ chunkBytes l := List.flatMap_cons

theorem Chunk.length_bytes (c : Chunk) :
    c.bytes.length = 8 + (recordBytes c.items).length / 4 * 4 := by
  rw [bytes, padding, List.length_append, List.length_append, List.length_cons,
    List.length_replicate, length_be32]
  omega

theorem carries_sdesPacket {chunks : List Chunk} (h : chunks.length ≤ 31) (rest : List UInt8) :
    Carries (sdesPacket chunks rest) chunks where
  count := headerCount_commonHeader h _ _ _
  chunks := by
    rw [At, sdesPacket, ← length_commonHeader chunks.length 202 (chunkBytes chunks).length,
      List.drop_left]
    exact List.prefix_append _ _

/-! ## What is seen -/

/-- The prefix and the value of a PRIV item. -/
def privParts (r : Record) : Option (List UInt8 × List UInt8) :=
  if r.tag ≠ 8 then none
  else
    match r.body with
    | [] => none
    | n :: rest =>
      if n.toNat ≤ rest.length then some (rest.take n.toNat, rest.drop n.toNat) else none

theorem privParts_eq_some {r : Record} {pre value : List UInt8}
    (h : privParts r = some (pre, value)) :
    r.tag = 8 ∧ ∃ n, r.body = n :: (pre ++ value) ∧ n.toNat = pre.length := by
  rw [privParts] at h
  split_ifs at h with htag
  refine ⟨not_not.1 htag, ?_⟩
  cases hbody : r.body with
  | nil => rw [hbody] at h; cases h
  | cons n rest =>
    simp only [hbody] at h
    split_ifs at h with hle
    obtain ⟨rfl, rfl⟩ : rest.take n.toNat = pre ∧ rest.drop n.toNat = value := by simpa using h
    exact ⟨n, by rw [List.take_append_drop], by rw [List.length_take, Nat.min_eq_left hle]⟩

theorem privParts_eq_none {r : Record} (h : privParts r = none) : r.tag ≠ 8 ∨ r.body = [] ∨
    ∃ n rest, r.body = n :: rest ∧ rest.length < n.toNat := by
  rw [privParts] at h
  split_ifs at h with htag
  · exact .inl htag
  · cases hbody : r.body with
    | nil => exact .inr (.inl rfl)
    | cons n rest =>
      simp only [hbody] at h
      split_ifs at h with hle
      exact .inr (.inr ⟨n, rest, rfl, Nat.lt_of_not_le hle⟩)

/-- The chunks, and the current chunk and item. -/
structure SDESView where
  chunks : List Chunk
  cursor : Option (ℕ × ℕ)

namespace SDESView
variable (v : SDESView)

/-- The chunk of the cursor. -/
def chunk : Option Chunk := v.cursor.bind fun (i, _) => v.chunks[i]?

/-- There is none behind the last item. -/
def item : Option Record := v.cursor.bind fun (i, j) => (v.chunks[i]?).bind fun c => c.items[j]?

/-- A part of an item: no data pointer is given for no bytes. -/
def part (part : Option (List UInt8)) : SDESResult :=
  match part with
  | none | some [] => .bytes 0 none
  | some data => .bytes data.length (some data)

/-- One call, on the chunks. -/
def perform : SDESCall → SDESResult × SDESView
  | .getChunkCount => (.count v.chunks.length, v)
  | .gotoFirstChunk =>
    if v.chunks = [] then (.bool false, { v with cursor := none })
    else (.bool true, { v with cursor := some (0, 0) })
  | .gotoNextChunk =>
    match v.cursor with
    | none => (.bool false, v)
    | some (i, _) =>
      if i + 1 = v.chunks.length then (.bool false, v)
      else (.bool true, { v with cursor := some (i + 1, 0) })
  | .getChunkSSRC => (.ssrc ((v.chunk.map Chunk.ssrc).getD 0), v)
  | .gotoFirstItem =>
    match v.cursor with
    | none => (.bool false, v)
    | some (i, _) =>
      let v := { v with cursor := some (i, 0) }
      (.bool v.item.isSome, v)
  | .gotoNextItem =>
    match v.cursor with
    | none => (.bool false, v)
    | some (i, j) =>
      let next := { v with cursor := some (i, j + 1) }
      if next.item.isSome then (.bool true, next) else (.bool false, v)
  | .getItemType => (.type ((v.item.map fun r => RTCPSDESPacket.itemType r.tag).getD .None), v)
  | .getItem =>
    match v.item with
    | none => (.bytes 0 none, v)
    | some r => (.bytes r.body.length (some r.body), v)
  | .getPRIVPrefix => (part ((v.item.bind privParts).map Prod.fst), v)
  | .getPRIVValue => (part ((v.item.bind privParts).map Prod.snd), v)

/-- One call after the other, on the chunks. -/
def performAll (v : SDESView) : List SDESCall → List SDESResult
  | [] => []
  | call :: calls => (v.perform call).1 :: (v.perform call).2.performAll calls

/-- The view whose current chunk is `c`, with `items` before its current item. -/
def focus (before : List Chunk) (c : Chunk) (after : List Chunk) (items : List Record) : SDESView :=
  ⟨before ++ c :: after, some (before.length, items.length)⟩

variable {before after : List Chunk} {c c' : Chunk} {items items' : List Record} {r r' : Record}

theorem chunk_focus : (focus before c after items).chunk = some c := by
  simp [chunk, focus]

theorem item_focus (h : c.items = items ++ items') :
    (focus before c after items).item = items'.head? := by
  have hget : (items ++ items')[items.length]? = items'[0]? := by
    rw [List.getElem?_append_right le_rfl, Nat.sub_self]
  simp [item, focus, h, List.head?_eq_getElem?, hget]

theorem getChunkSSRC_focus : (focus before c after items).perform .getChunkSSRC =
    (.ssrc c.ssrc, focus before c after items) := by
  rw [perform, chunk_focus]; rfl

theorem gotoNextChunk_nil : (focus before c [] items).perform .gotoNextChunk =
    (.bool false, focus before c [] items) := by
  simp [perform, focus]

theorem gotoNextChunk_cons : (focus before c (c' :: after) items).perform .gotoNextChunk =
    (.bool true, focus (before ++ [c]) c' after []) := by
  simp [perform, focus]

theorem gotoFirstItem_focus : (focus before c after items).perform .gotoFirstItem =
    (.bool (decide (c.items ≠ [])), focus before c after []) := by
  have hitem : (focus before c after []).item = c.items.head? := item_focus rfl
  rw [focus, perform]
  refine Prod.ext ?_ rfl
  show SDESResult.bool (focus before c after []).item.isSome = _
  rw [hitem]
  cases c.items <;> rfl

theorem gotoNextItem_last (h : c.items = items ++ items') (hlast : items'.tail = []) :
    (focus before c after items).perform .gotoNextItem =
      (.bool false, focus before c after items) := by
  have hget : (items ++ items')[items.length + 1]? = none := by
    have htail : items'[1]? = none := by
      rw [← List.head?_tail, hlast]; rfl
    rw [List.getElem?_append_right (by omega), Nat.add_sub_cancel_left, htail]
  simp [perform, focus, item, h, hget]

theorem gotoNextItem_cons (h : c.items = items ++ r :: r' :: items') :
    (focus before c after items).perform .gotoNextItem =
      (.bool true, focus before c after (items ++ [r])) := by
  simp [perform, focus, item, h]

end SDESView

/-! ### Going through everything -/

/-- The calls of `if (GotoFirstItem()) do .. while (GotoNextItem())`, behind the first one. -/
def itemCalls (items : List Record) : List SDESCall :=
  items.flatMap fun _ => [.getItemType, .getItem, .gotoNextItem]

theorem itemCalls_cons (r : Record) (l : List Record) :
    itemCalls (r :: l) = .getItemType :: .getItem :: .gotoNextItem :: itemCalls l := rfl

/-- What a loop over the items of a chunk returns. -/
def itemResults : List Record → List SDESResult
  | [] => []
  | r :: l => .type (RTCPSDESPacket.itemType r.tag) :: .bytes r.body.length (some r.body) ::
      .bool (decide (l ≠ [])) :: itemResults l

/-- The calls of `if (GotoFirstChunk()) do .. while (GotoNextChunk())`, behind the first one. -/
def chunkCalls (chunks : List Chunk) : List SDESCall :=
  chunks.flatMap fun c => .getChunkSSRC :: .gotoFirstItem :: (itemCalls c.items ++ [.gotoNextChunk])

theorem chunkCalls_cons (c : Chunk) (l : List Chunk) : chunkCalls (c :: l) =
    .getChunkSSRC :: .gotoFirstItem :: (itemCalls c.items ++ .gotoNextChunk :: chunkCalls l) := by
  rw [chunkCalls, List.flatMap_cons, List.cons_append, List.cons_append, List.append_assoc]; rfl

/-- What a loop over the chunks returns. -/
def chunkResults : List Chunk → List SDESResult
  | [] => []
  | c :: l => .ssrc c.ssrc :: .bool (decide (c.items ≠ [])) ::
      (itemResults c.items ++ .bool (decide (l ≠ [])) :: chunkResults l)

/-- Where the chunks of a packet end before a chunk. -/
def chunkOffset (before : List Chunk) : ℕ := sizeofCommonHeader + (chunkBytes before).length

theorem chunkOffset_snoc (before : List Chunk) (c : Chunk) : chunkOffset (before ++ [c]) =
    chunkOffset before + (8 + (recordBytes c.items).length / 4 * 4) := by
  rw [chunkOffset, chunkOffset, chunkBytes_append, List.length_append, ← Nat.add_assoc,
    ← c.length_bytes]
  simp only [chunkBytes, List.flatMap_singleton]

/-- The members of a packet whose current chunk is `c`, with `items` before its current item. -/
structure Focus (p : RTCPSDESPacket) (before : List Chunk) (c : Chunk) (after : List Chunk)
    (items items' : List Record) : Prop where
  known : p.knownformat = true
  carries : Carries p.data (before ++ c :: after)
  items_eq : c.items = items ++ items'
  currentchunk : p.currentchunk = some (chunkOffset before)
  curchunknum : p.curchunknum = before.length + 1
  itemoffset : p.itemoffset = sizeofUint32 + (recordBytes items).length

/-- A packet and what is seen of it. -/
inductive Shows : RTCPSDESPacket → SDESView → Prop
  | outside {p : RTCPSDESPacket} {chunks : List Chunk} (known : p.knownformat = true)
    (carries : Carries p.data chunks) (hnone : p.currentchunk = none) : Shows p ⟨chunks, none⟩
  | inside {p : RTCPSDESPacket} {before : List Chunk} {c : Chunk} {after : List Chunk}
    {items items' : List Record} (h : Focus p before c after items items') :
    Shows p (.focus before c after items)

/-- A packet about two sources; the first one has a name and a private item. -/
def twoChunks : List Chunk :=
  [⟨7, [⟨1, [97, 98], by decide, by decide⟩, ⟨8, [1, 120, 121], by decide, by decide⟩]⟩, ⟨9, []⟩]

/-- The packet with both chunks, before the first call. -/
def twoChunksPacket : RTCPSDESPacket := ⟨sdesPacket twoChunks [], true, none, 0, 0⟩

theorem carries_twoChunks : Carries twoChunksPacket.data twoChunks :=
  carries_sdesPacket (by decide) []

end RayionClient
