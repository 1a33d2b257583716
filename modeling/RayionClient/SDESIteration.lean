/-
  Going through a source description packet.

  `Shows.agrees`: on a packet that carries chunks, every method of `RTCPSDESPacket`
  reads bytes of the packet only, and returns what the chunks say.
  `sdes_calls` carries this to any sequence of calls, `sdes_reads_all` to the
  loops over all chunks and their items.
  `gotoNextChunk_isSome_iff`: on any bytes, `GotoNextChunk` stays inside the packet exactly
  if the items of the current chunk end with a zero byte there.
-/
import RayionClient.SDESFormat
import RayionClient.Base.Machine

namespace RayionClient

open Base

section
variable {p : RTCPSDESPacket} {v : SDESView} {chunks before after : List Chunk} {c c' : Chunk}
  {items items' : List Record} {r : Record}

/-! ## The bytes at the current position -/

theorem Carries.getChunkCount (known : p.knownformat = true) (h : Carries p.data chunks) :
    p.getChunkCount = some (chunks.length : ℤ) := by
  rw [RTCPSDESPacket.getChunkCount, known]; exact h.count

namespace Focus

/-- The bytes of the current chunk, from its source on. -/
theorem at_chunk (h : Focus p before c after items items') :
    At p.data (chunkOffset before) (be32 c.ssrc) ∧
      At p.data (chunkOffset before + sizeofUint32) (recordBytes c.items ++ c.padding) ∧
      At p.data (chunkOffset (before ++ [c])) (chunkBytes after) := by
  have hall := h.carries.chunks
  rw [chunkBytes_append, chunkBytes_cons, at_append, at_append] at hall
  obtain ⟨-, hc, hafter⟩ := hall
  rw [Chunk.bytes, at_append] at hc
  refine ⟨hc.1, ?_, ?_⟩
  · have hlen : (be32 c.ssrc).length = sizeofUint32 := length_be32 c.ssrc
    rw [← hlen]; exact hc.2
  · rw [chunkOffset, chunkBytes_append, List.length_append, ← Nat.add_assoc]
    simpa [chunkBytes] using hafter

/-- The bytes of the current chunk, from the current item on. -/
theorem at_items (h : Focus p before c after items items') :
    At p.data (chunkOffset before + p.itemoffset) (recordBytes items' ++ c.padding) := by
  have hall := h.at_chunk.2.1
  rw [h.items_eq, recordBytes_append, List.append_assoc, at_append] at hall
  rw [h.itemoffset, ← Nat.add_assoc]; exact hall.2

/-- The byte behind the last item is zero. -/
theorem sdesid_zero (h : Focus p before c after items []) :
    p.data[chunkOffset before + p.itemoffset]? = some 0 := (at_cons.1 h.at_items).1

/-- The fields of the current item, and the byte behind it. -/
theorem record (h : Focus p before c after items (r :: items')) :
    p.data[chunkOffset before + p.itemoffset]? = some r.tag ∧
      p.data[chunkOffset before + p.itemoffset + 1]? = some (UInt8.ofNat r.body.length) ∧
      At p.data (chunkOffset before + p.itemoffset + sizeofSDESHeader) r.body ∧
      At p.data (chunkOffset before + p.itemoffset + sizeofSDESHeader + r.body.length)
        (recordBytes items' ++ c.padding) := at_record_iff.1 h.at_items

/-- The next item of the chunk. -/
theorem next (h : Focus p before c after items (r :: items')) :
    Focus { p with itemoffset := p.itemoffset + sizeofSDESHeader + r.body.length }
      before c after (items ++ [r]) items' where
  known := h.known
  carries := h.carries
  items_eq := by rw [h.items_eq, List.append_assoc]; rfl
  currentchunk := h.currentchunk
  curchunknum := h.curchunknum
  itemoffset := by
    show p.itemoffset + sizeofSDESHeader + r.body.length = _
    rw [h.itemoffset, recordBytes_append, recordBytes_cons, List.length_append, List.length_append,
      Record.length_bytes]
    simp only [recordBytes, List.flatMap_nil, List.length_nil, sizeofSDESHeader]
    omega

/-- The first item of the chunk. -/
theorem first (h : Focus p before c after items items') :
    Focus { p with itemoffset := sizeofUint32 } before c after [] c.items where
  known := h.known
  carries := h.carries
  items_eq := rfl
  currentchunk := h.currentchunk
  curchunknum := h.curchunknum
  itemoffset := rfl

end Focus

/-! ## The methods -/

theorem skipItems_eq {currentchunk : ℕ} {rest : List UInt8} : ∀ (l : List Record) (n offset : ℕ),
    l.length ≤ n → At p.data (currentchunk + offset) (recordBytes l ++ 0 :: rest) →
      p.skipItems currentchunk n offset = some (offset + (recordBytes l).length)
  | [], n, offset, _, h => by
    have hzero := (at_cons.1 h).1
    cases n <;> rw [RTCPSDESPacket.skipItems, hzero] <;> rfl
  | r :: l, n, offset, hn, h => by
    obtain ⟨n, rfl⟩ : ∃ m, n = m + 1 := ⟨n - 1, by simp at hn; omega⟩
    obtain ⟨htag, hlen, -, hrest⟩ := at_record_iff.1 h
    rw [RTCPSDESPacket.skipItems, htag, hlen]
    simp only [Option.bind_eq_bind, Option.bind_some, ne_eq, r.tag_ne, not_false_eq_true, if_true,
      r.length_toNat]
    rw [skipItems_eq l n _ (by simpa using hn) (by
      rwa [← Nat.add_assoc, ← Nat.add_assoc]), recordBytes_cons, List.length_append,
      Record.length_bytes, sizeofSDESHeader]
    congr 1; omega

/-- Where the loop ends, it has gone over items and found a zero byte. -/
theorem at_of_skipItems {currentchunk : ℕ} : ∀ (n offset : ℕ) {offset' : ℕ},
    p.skipItems currentchunk n offset = some offset' →
      ∃ l, At p.data (currentchunk + offset) (recordBytes l ++ [0])
  | 0, offset, offset', h => by
    rw [RTCPSDESPacket.skipItems] at h
    obtain ⟨sdesid, hget, h⟩ := Option.bind_eq_some_iff.1 h
    split_ifs at h with hne
    exact ⟨[], at_cons.2 ⟨by rw [hget, not_not.1 hne], List.nil_prefix⟩⟩
  | n + 1, offset, offset', h => by
    rw [RTCPSDESPacket.skipItems] at h
    obtain ⟨sdesid, hget, h⟩ := Option.bind_eq_some_iff.1 h
    split_ifs at h with hne
    · obtain ⟨length, hlen, h⟩ := Option.bind_eq_some_iff.1 h
      obtain ⟨l, hl⟩ := at_of_skipItems n _ h
      have hle := hl.length_le
      rw [List.length_append, List.length_singleton] at hle
      simp only [sizeofSDESHeader, ← Nat.add_assoc] at hl hle
      obtain ⟨r, hr⟩ := exists_record_at hne hget hlen (by omega) hl
      exact ⟨r :: l, hr⟩
    · exact ⟨[], at_cons.2 ⟨by rw [hget, not_not.1 hne], List.nil_prefix⟩⟩

/-- The end of the items, rounded up. -/
theorem round_eq (n : ℕ) : (if (4 + n + 1) &&& 3 ≠ 0 then 4 + n + 1 + (4 - ((4 + n + 1) &&& 3))
    else 4 + n + 1) = 8 + n / 4 * 4 := by
  have hmod : (4 + n + 1) &&& 3 = (4 + n + 1) % 4 := Nat.and_two_pow_sub_one_eq_mod _ 2
  rw [hmod]
  split_ifs <;> omega

/-- **On any bytes**, `GotoNextChunk` stays inside the packet exactly if the bytes of the current
    chunk are items with a zero byte behind them. -/
theorem gotoNextChunk_isSome_iff {currentchunk : ℕ} {count : ℤ} (known : p.knownformat = true)
    (hcur : p.currentchunk = some currentchunk) (hcount : p.getChunkCount = some count)
    (hmore : p.curchunknum ≠ count) : p.gotoNextChunk.isSome ↔
      ∃ items, At p.data (currentchunk + sizeofUint32) (recordBytes items ++ [0]) := by
  have hskip : p.gotoNextChunk.isSome ↔
      (p.skipItems currentchunk p.data.length sizeofUint32).isSome := by
    rw [RTCPSDESPacket.gotoNextChunk, known, hcur]
    simp only [Bool.not_true, Bool.false_eq_true, if_false, hcount, Option.bind_eq_bind,
      Option.bind_some, hmore]
    cases p.skipItems currentchunk p.data.length sizeofUint32 <;> rfl
  rw [hskip]
  constructor
  · intro h
    obtain ⟨offset, hoffset⟩ := Option.isSome_iff_exists.1 h
    exact at_of_skipItems _ _ hoffset
  · rintro ⟨items, h⟩
    have hle := h.length_le
    have hitems := length_le_recordBytes items
    rw [List.length_append] at hle
    rw [skipItems_eq items _ _ (by omega) h]; rfl

theorem gotoNextChunk_isSome_twoChunks :
    ∃ items, At twoChunksPacket.data (4 + sizeofUint32) (recordBytes items ++ [0]) :=
  (gotoNextChunk_isSome_iff
    (p := { twoChunksPacket with currentchunk := some 4, curchunknum := 1, itemoffset := 4 })
    rfl rfl (show RTCPSDESPacket.getChunkCount _ = some 2 from rfl) (by decide)).1 rfl

theorem gotoFirstChunk_nil (known : p.knownformat = true) (h : Carries p.data []) :
    p.gotoFirstChunk = some (false, { p with currentchunk := none }) := by
  rw [RTCPSDESPacket.gotoFirstChunk, h.getChunkCount known]; rfl

theorem gotoFirstChunk_cons (known : p.knownformat = true) (h : Carries p.data (c :: after)) :
    ∃ p', p.gotoFirstChunk = some (true, p') ∧ Focus p' [] c after [] c.items := by
  refine ⟨{ p with
    currentchunk := some sizeofCommonHeader, curchunknum := 1, itemoffset := sizeofUint32 }, ?_, ?_⟩
  · rw [RTCPSDESPacket.gotoFirstChunk, h.getChunkCount known, Option.bind_eq_bind,
      Option.bind_some, if_neg (by simp only [List.length_cons]; omega)]
    rfl
  · exact ⟨known, h, rfl, rfl, rfl, rfl⟩

namespace Focus

theorem gotoNextChunk_nil (h : Focus p before c [] items items') :
    p.gotoNextChunk = some (false, p) := by
  rw [RTCPSDESPacket.gotoNextChunk, h.known, h.currentchunk]
  simp only [Bool.not_true, Bool.false_eq_true, if_false, h.carries.getChunkCount h.known,
    Option.bind_eq_bind, Option.bind_some]
  rw [if_pos (by rw [h.curchunknum, List.length_append, List.length_singleton]; omega)]
  rfl

theorem gotoNextChunk_cons (h : Focus p before c (c' :: after) items items') :
    ∃ p', p.gotoNextChunk = some (true, p') ∧ Focus p' (before ++ [c]) c' after [] c'.items := by
  have hbytes := h.at_chunk.2.1
  -- every item takes two bytes of the packet or more, so the rounds are enough
  have hrounds : c.items.length ≤ p.data.length := by
    have h₁ := length_le_recordBytes c.items
    have h₂ := hbytes.length_le
    rw [List.length_append] at h₂
    omega
  refine ⟨{ p with
    currentchunk := some (chunkOffset (before ++ [c])), curchunknum := p.curchunknum + 1
    itemoffset := sizeofUint32 }, ?_, ?_⟩
  · rw [RTCPSDESPacket.gotoNextChunk, h.known, h.currentchunk]
    simp only [Bool.not_true, Bool.false_eq_true, if_false, h.carries.getChunkCount h.known,
      Option.bind_eq_bind, Option.bind_some]
    rw [if_neg (by
      rw [h.curchunknum, List.length_append, List.length_cons, List.length_cons]; omega),
      skipItems_eq c.items _ _ hrounds hbytes, Option.bind_some, sizeofUint32, round_eq,
      ← chunkOffset_snoc]
    rfl
  · refine ⟨h.known, ?_, rfl, rfl, ?_, rfl⟩
    · rw [List.append_assoc]; exact h.carries
    · show p.curchunknum + 1 = _
      rw [h.curchunknum, List.length_append]; rfl

theorem getChunkSSRC (h : Focus p before c after items items') : p.getChunkSSRC = some c.ssrc := by
  rw [RTCPSDESPacket.getChunkSSRC, h.known, h.currentchunk]
  exact h.at_chunk.1.wordAt

theorem gotoFirstItem (h : Focus p before c after items items') : p.gotoFirstItem =
    some (decide (c.items ≠ []), { p with itemoffset := sizeofUint32 }) := by
  have hfirst := h.first
  rw [RTCPSDESPacket.gotoFirstItem, h.known, h.currentchunk]
  simp only [Bool.not_true, Bool.false_eq_true, if_false, Option.bind_eq_bind]
  cases hc : c.items with
  | nil =>
    rw [hc] at hfirst
    rw [show p.data[chunkOffset before + sizeofUint32]? = _ from hfirst.sdesid_zero]; rfl
  | cons r l =>
    rw [hc] at hfirst
    rw [show p.data[chunkOffset before + sizeofUint32]? = _ from hfirst.record.1, Option.bind_some,
      if_neg r.tag_ne]
    simp only [ne_eq, reduceCtorEq, not_false_eq_true, decide_true]
    rfl

theorem gotoNextItem_nil (h : Focus p before c after items []) :
    p.gotoNextItem = some (false, p) := by
  rw [RTCPSDESPacket.gotoNextItem, h.known, h.currentchunk]
  simp only [Bool.not_true, Bool.false_eq_true, if_false, h.sdesid_zero, Option.bind_eq_bind,
    Option.bind_some, if_true]
  rfl

theorem gotoNextItem_cons (h : Focus p before c after items (r :: items')) : p.gotoNextItem =
    some (if items' = [] then (false, p) else
      (true, { p with itemoffset := p.itemoffset + sizeofSDESHeader + r.body.length })) := by
  obtain ⟨htag, hlen, -, -⟩ := h.record
  have hnext := h.next
  rw [RTCPSDESPacket.gotoNextItem, h.known, h.currentchunk]
  simp only [Bool.not_true, Bool.false_eq_true, if_false, htag, hlen, r.tag_ne, r.length_toNat,
    Option.bind_eq_bind, Option.bind_some]
  cases items' with
  | nil => rw [show p.data[chunkOffset before + _]? = _ from hnext.sdesid_zero]; rfl
  | cons r' l =>
    rw [show p.data[chunkOffset before + _]? = _ from hnext.record.1, Option.bind_some,
      if_neg r'.tag_ne, if_neg (by simp)]
    rfl

theorem getItemType (h : Focus p before c after items items') : p.getItemType =
    some ((items'.head?.map fun r => RTCPSDESPacket.itemType r.tag).getD .None) := by
  rw [RTCPSDESPacket.getItemType, h.known, h.currentchunk]
  simp only [Bool.not_true, Bool.false_eq_true, if_false, Option.bind_eq_bind]
  cases items' with
  | nil => rw [h.sdesid_zero]; rfl
  | cons r l => rw [h.record.1]; rfl

end Focus

/-! ### Data of an item -/

theorem read_eq {o : ℕ} {bytes : List UInt8} (h : At p.data o bytes)
    (hle : o + bytes.length ≤ p.data.length) :
    p.read (some o) bytes.length = some (some bytes) := by
  rw [RTCPSDESPacket.read]
  simp only [hle, if_true, h.read]

namespace Focus

theorem perform_getItem_nil (h : Focus p before c after items []) :
    p.perform .getItem = some (.bytes 0 none, p) := by
  have hzero := h.sdesid_zero
  simp only [RTCPSDESPacket.perform, RTCPSDESPacket.getItemLength, RTCPSDESPacket.getItemData,
    h.known, h.currentchunk, hzero, Bool.not_true, Bool.false_eq_true, if_false, if_true,
    Option.bind_eq_bind, Option.bind_some, Option.pure_def, RTCPSDESPacket.read]

/-- The item ends before the packet does. -/
theorem end_lt (h : Focus p before c after items (r :: items')) :
    chunkOffset before + p.itemoffset + sizeofSDESHeader + r.body.length < p.data.length := by
  have hlen := h.record.2.2.2.length_le
  rw [List.length_append, Chunk.padding, List.length_cons] at hlen
  omega

theorem perform_getItem_cons (h : Focus p before c after items (r :: items')) :
    p.perform .getItem = some (.bytes r.body.length (some r.body), p) := by
  obtain ⟨htag, hlen, hbody, -⟩ := h.record
  simp only [RTCPSDESPacket.perform, RTCPSDESPacket.getItemLength, RTCPSDESPacket.getItemData,
    h.known, h.currentchunk, htag, hlen, r.tag_ne, r.length_toNat, Bool.not_true,
    Bool.false_eq_true, if_false, Option.bind_eq_bind, Option.bind_some, Option.pure_def,
    read_eq hbody h.end_lt.le]

theorem privLengths_nil (h : Focus p before c after items []) : p.privLengths = some none := by
  rw [RTCPSDESPacket.privLengths, h.known, h.currentchunk]
  simp only [Bool.not_true, Bool.false_eq_true, if_false, h.sdesid_zero, Option.bind_eq_bind,
    Option.bind_some]
  rfl

/-- An item that is not a well-formed PRIV item. -/
theorem privLengths_none (h : Focus p before c after items (r :: items'))
    (hnone : privParts r = none) : p.privLengths = some none := by
  obtain ⟨htag, hlen, hbody, -⟩ := h.record
  rw [RTCPSDESPacket.privLengths, h.known, h.currentchunk]
  simp only [Bool.not_true, Bool.false_eq_true, if_false, htag, hlen, Option.bind_eq_bind,
    Option.bind_some]
  rcases privParts_eq_none hnone with hne | hnil | ⟨n, rest, hcons, hlt⟩
  · rw [if_pos hne]; rfl
  · rw [hnil, if_pos (show UInt8.ofNat ([] : List UInt8).length = 0 from rfl)]
    split_ifs <;> rfl
  · have hn : p.data[chunkOffset before + p.itemoffset + sizeofSDESHeader]? = some n := by
      rw [hcons] at hbody; exact (at_cons.1 hbody).1
    have hlong : n.toNat > r.body.length - 1 := by rw [hcons]; exact hlt
    rw [hn]
    simp only [Option.bind_some, r.length_toNat, hlong, if_true]
    split_ifs <;> rfl

/-- A well-formed PRIV item: the byte before the prefix is its length. -/
theorem privLengths_some (h : Focus p before c after items (r :: items'))
    {pre value : List UInt8} (hsome : privParts r = some (pre, value)) :
    p.privLengths = some (some (chunkOffset before + p.itemoffset + sizeofSDESHeader,
      pre.length + value.length + 1, pre.length)) := by
  obtain ⟨htag, hlen, hbody, -⟩ := h.record
  obtain ⟨hpriv, n, hcons, hn⟩ := privParts_eq_some hsome
  have hget : p.data[chunkOffset before + p.itemoffset + sizeofSDESHeader]? = some n := by
    rw [hcons] at hbody; exact (at_cons.1 hbody).1
  have hlength : r.body.length = pre.length + value.length + 1 := by
    rw [hcons, List.length_cons, List.length_append]
  have hne : UInt8.ofNat r.body.length ≠ 0 := by
    intro h0
    have := r.length_toNat
    rw [h0, hlength] at this
    exact absurd this (by simp)
  rw [RTCPSDESPacket.privLengths, h.known, h.currentchunk]
  simp only [Bool.not_true, Bool.false_eq_true, if_false, htag, hlen, hget, hpriv, ne_eq,
    not_true_eq_false, hne, Option.bind_eq_bind, Option.bind_some, r.length_toNat, hn]
  rw [if_neg (by rw [hlength]; omega), hlength]
  rfl

/-- The two parts of a PRIV item, and the bytes at the pointers to them. -/
theorem perform_priv (h : Focus p before c after items items')
    {parts : Option (List UInt8 × List UInt8)} (hparts : items'.head?.bind privParts = parts) :
    p.perform .getPRIVPrefix = some (SDESView.part (parts.map Prod.fst), p) ∧
      p.perform .getPRIVValue = some (SDESView.part (parts.map Prod.snd), p) := by
  subst hparts
  simp only [RTCPSDESPacket.perform, RTCPSDESPacket.getPRIVPrefixLength,
    RTCPSDESPacket.getPRIVPrefixData, RTCPSDESPacket.getPRIVValueLength,
    RTCPSDESPacket.getPRIVValueData]
  cases items' with
  | nil => rw [h.privLengths_nil]; exact ⟨rfl, rfl⟩
  | cons r l =>
    rw [List.head?_cons, Option.bind_some]
    cases hr : privParts r with
    | none => rw [h.privLengths_none hr]; exact ⟨rfl, rfl⟩
    | some parts =>
      obtain ⟨pre, value⟩ := parts
      obtain ⟨-, n, hcons, -⟩ := privParts_eq_some hr
      have hbody := h.record.2.2.1
      have hend := h.end_lt
      rw [hcons, at_cons, at_append] at hbody
      obtain ⟨-, hpre, hvalue⟩ := hbody
      rw [hcons, List.length_cons, List.length_append] at hend
      have hpreread := read_eq hpre (by omega)
      have hvalueread := read_eq hvalue (by omega)
      have hsub : pre.length + value.length + 1 - pre.length - 1 = value.length := by omega
      rw [h.privLengths_some hr]
      simp only [Option.map_some, Option.bind_eq_bind, Option.bind_some, hsub]
      constructor
      · cases pre with
        | nil => rfl
        | cons x pre =>
          rw [if_neg (by simp), hpreread]; rfl
      · cases value with
        | nil => rfl
        | cons x value =>
          rw [if_neg (by simp), hvalueread]; rfl

end Focus

/-! ## Sequences of calls -/

/-- One call, of the packet and of what is seen of it. -/
def Agrees (p : RTCPSDESPacket) (v : SDESView) (call : SDESCall) : Prop :=
  ∃ p', p.perform call = some ((v.perform call).1, p') ∧ Shows p' (v.perform call).2

theorem Agrees.intro {p' : RTCPSDESPacket} {v' : SDESView} {call : SDESCall} {r : SDESResult}
    (hview : v.perform call = (r, v')) (hp : p.perform call = some (r, p')) (h : Shows p' v') :
    Agrees p v call := by
  rw [Agrees, hview]; exact ⟨p', hp, h⟩

theorem Shows.carries (h : Shows p v) : p.knownformat = true ∧ Carries p.data v.chunks := by
  cases h with
  | outside known carries hnone => exact ⟨known, carries⟩
  | inside h => exact ⟨h.known, h.carries⟩

/-- The first chunk is found from any position. -/
theorem agrees_gotoFirstChunk (known : p.knownformat = true) (h : Carries p.data v.chunks) :
    Agrees p v .gotoFirstChunk := by
  obtain ⟨chunks, cursor⟩ := v
  cases chunks with
  | nil =>
    refine ⟨{ p with currentchunk := none }, ?_, .outside known h rfl⟩
    rw [RTCPSDESPacket.perform, gotoFirstChunk_nil known h]; rfl
  | cons c after =>
    obtain ⟨p', hp', hfocus⟩ := gotoFirstChunk_cons known h
    refine ⟨p', ?_, .inside hfocus⟩
    rw [RTCPSDESPacket.perform, hp']; rfl

/-- Without a current chunk, nothing is there and nothing happens. -/
theorem agrees_outside (known : p.knownformat = true) (h : Carries p.data chunks)
    (hnone : p.currentchunk = none) {call : SDESCall} (hcall : call ≠ .gotoFirstChunk) :
    Agrees p ⟨chunks, none⟩ call := by
  have hshows : Shows p ⟨chunks, none⟩ := .outside known h hnone
  cases call with
  | gotoFirstChunk => exact absurd rfl hcall
  | getChunkCount =>
    refine ⟨p, ?_, hshows⟩
    rw [RTCPSDESPacket.perform, h.getChunkCount known]; rfl
  | gotoNextChunk =>
    refine ⟨p, ?_, hshows⟩
    rw [RTCPSDESPacket.perform, RTCPSDESPacket.gotoNextChunk, known, hnone]; rfl
  | getChunkSSRC =>
    refine ⟨p, ?_, hshows⟩
    rw [RTCPSDESPacket.perform, RTCPSDESPacket.getChunkSSRC, known, hnone]; rfl
  | gotoFirstItem =>
    refine ⟨p, ?_, hshows⟩
    rw [RTCPSDESPacket.perform, RTCPSDESPacket.gotoFirstItem, known, hnone]; rfl
  | gotoNextItem =>
    refine ⟨p, ?_, hshows⟩
    rw [RTCPSDESPacket.perform, RTCPSDESPacket.gotoNextItem, known, hnone]; rfl
  | getItemType =>
    refine ⟨p, ?_, hshows⟩
    rw [RTCPSDESPacket.perform, RTCPSDESPacket.getItemType, known, hnone]; rfl
  | getItem =>
    refine ⟨p, ?_, hshows⟩
    rw [RTCPSDESPacket.perform, RTCPSDESPacket.getItemLength, RTCPSDESPacket.getItemData, known,
      hnone]
    rfl
  | getPRIVPrefix =>
    refine ⟨p, ?_, hshows⟩
    rw [RTCPSDESPacket.perform, RTCPSDESPacket.getPRIVPrefixLength,
      RTCPSDESPacket.getPRIVPrefixData, RTCPSDESPacket.privLengths, known, hnone]
    rfl
  | getPRIVValue =>
    refine ⟨p, ?_, hshows⟩
    rw [RTCPSDESPacket.perform, RTCPSDESPacket.getPRIVValueLength,
      RTCPSDESPacket.getPRIVValueData, RTCPSDESPacket.privLengths, known, hnone]
    rfl

theorem Focus.agrees_gotoNextChunk (h : Focus p before c after items items') :
    Agrees p (.focus before c after items) .gotoNextChunk := by
  cases after with
  | nil =>
    refine .intro SDESView.gotoNextChunk_nil ?_ (.inside h)
    rw [RTCPSDESPacket.perform, h.gotoNextChunk_nil]; rfl
  | cons c' after =>
    obtain ⟨p', hp', hfocus⟩ := h.gotoNextChunk_cons
    refine .intro SDESView.gotoNextChunk_cons ?_ (.inside hfocus)
    rw [RTCPSDESPacket.perform, hp']; rfl

theorem Focus.agrees_gotoNextItem (h : Focus p before c after items items') :
    Agrees p (.focus before c after items) .gotoNextItem := by
  cases items' with
  | nil =>
    refine .intro (SDESView.gotoNextItem_last h.items_eq rfl) ?_ (.inside h)
    rw [RTCPSDESPacket.perform, h.gotoNextItem_nil]; rfl
  | cons r l =>
    cases l with
    | nil =>
      refine .intro (SDESView.gotoNextItem_last h.items_eq rfl) ?_ (.inside h)
      rw [RTCPSDESPacket.perform, h.gotoNextItem_cons]; rfl
    | cons r' l =>
      refine .intro (SDESView.gotoNextItem_cons h.items_eq) ?_ (.inside h.next)
      rw [RTCPSDESPacket.perform, h.gotoNextItem_cons]; rfl

/-- **One call returns what the chunks say.** -/
theorem Shows.agrees (h : Shows p v) (call : SDESCall) : Agrees p v call := by
  by_cases hcall : call = .gotoFirstChunk
  · rw [hcall]; exact agrees_gotoFirstChunk h.carries.1 h.carries.2
  · cases h with
    | outside known carries hnone => exact agrees_outside known carries hnone hcall
    | @inside before c after items items' h =>
      have hchunk : (SDESView.focus before c after items).chunk = some c := SDESView.chunk_focus
      have hitem : (SDESView.focus before c after items).item = items'.head? :=
        SDESView.item_focus h.items_eq
      cases call with
      | gotoFirstChunk => exact absurd rfl hcall
      | gotoNextChunk => exact h.agrees_gotoNextChunk
      | gotoFirstItem =>
        refine .intro SDESView.gotoFirstItem_focus ?_ (.inside h.first)
        rw [RTCPSDESPacket.perform, h.gotoFirstItem]; rfl
      | gotoNextItem => exact h.agrees_gotoNextItem
      | getChunkCount =>
        refine ⟨p, ?_, .inside h⟩
        rw [RTCPSDESPacket.perform, h.carries.getChunkCount h.known]; rfl
      | getChunkSSRC =>
        refine ⟨p, ?_, .inside h⟩
        rw [RTCPSDESPacket.perform, h.getChunkSSRC, SDESView.perform, hchunk]; rfl
      | getItemType =>
        refine ⟨p, ?_, .inside h⟩
        rw [RTCPSDESPacket.perform, h.getItemType, SDESView.perform, hitem]; rfl
      | getItem =>
        rw [Agrees, SDESView.perform, hitem]
        cases items' with
        | nil => exact ⟨p, h.perform_getItem_nil, .inside h⟩
        | cons r l => exact ⟨p, h.perform_getItem_cons, .inside h⟩
      | getPRIVPrefix =>
        refine ⟨p, ?_, .inside h⟩
        rw [(h.perform_priv rfl).1, SDESView.perform, hitem]
      | getPRIVValue =>
        refine ⟨p, ?_, .inside h⟩
        rw [(h.perform_priv rfl).2, SDESView.perform, hitem]

theorem Shows.performAll (h : Shows p v) (calls : List SDESCall) :
    p.performAll calls = some (v.performAll calls) := by
  induction calls generalizing p v with
  | nil => rfl
  | cons call calls ih =>
    obtain ⟨p', hp', hshows⟩ := h.agrees call
    rw [RTCPSDESPacket.performAll, hp', SDESView.performAll]
    simp only [Option.bind_eq_bind, Option.bind_some, ih hshows, Option.pure_def]

/-- **Any sequence of calls**, from the first chunk on, returns what the chunks say, and reads
    nothing behind the packet. -/
theorem sdes_calls (known : p.knownformat = true) (h : Carries p.data chunks)
    (calls : List SDESCall) : p.performAll (.gotoFirstChunk :: calls) =
      some (SDESView.performAll ⟨chunks, none⟩ (.gotoFirstChunk :: calls)) := by
  obtain ⟨p', hp', hshows⟩ := agrees_gotoFirstChunk (v := ⟨chunks, none⟩) known h
  rw [RTCPSDESPacket.performAll, hp', SDESView.performAll]
  simp only [Option.bind_eq_bind, Option.bind_some, hshows.performAll, Option.pure_def]

theorem sdes_calls_twoChunks : twoChunksPacket.performAll
    [.gotoFirstChunk, .gotoFirstItem, .gotoNextItem, .getPRIVValue, .gotoNextChunk, .getChunkSSRC] =
      some [.bool true, .bool true, .bool true, .bytes 1 (some [121]), .bool true, .ssrc 9] :=
  sdes_calls rfl carries_twoChunks
    [.gotoFirstItem, .gotoNextItem, .getPRIVValue, .gotoNextChunk, .getChunkSSRC]

/-! ### Going through everything -/

namespace SDESView

/-- From an item on, to the last one of its chunk. -/
theorem performAll_items (before after : List Chunk) (h : c.items = items ++ items')
    (calls : List SDESCall) :
    ∃ l, (focus before c after items).performAll (itemCalls items' ++ calls) =
      itemResults items' ++ (focus before c after l).performAll calls := by
  induction items' generalizing items with
  | nil => exact ⟨items, rfl⟩
  | cons r l ih =>
    have hitem : (focus before c after items).item = some r := item_focus h
    have hhead : ∀ calls', (focus before c after items).performAll
        (.getItemType :: .getItem :: .gotoNextItem :: calls') =
          .type (RTCPSDESPacket.itemType r.tag) :: .bytes r.body.length (some r.body) ::
            ((focus before c after items).perform .gotoNextItem).1 ::
              ((focus before c after items).perform .gotoNextItem).2.performAll calls' := by
      intro calls'
      simp only [performAll, perform, hitem, Option.map_some, Option.getD_some]
    cases l with
    | nil =>
      refine ⟨items, ?_⟩
      rw [itemCalls_cons]
      refine (hhead _).trans ?_
      rw [gotoNextItem_last h rfl]; rfl
    | cons r' l =>
      have h' : c.items = (items ++ [r]) ++ r' :: l := by rw [h, List.append_assoc]; rfl
      obtain ⟨last, hlast⟩ := ih h'
      refine ⟨last, ?_⟩
      rw [itemCalls_cons]
      refine (hhead _).trans ?_
      rw [gotoNextItem_cons h]
      exact congrArg (fun l => _ :: _ :: _ :: l) hlast

/-- From a chunk on, to the last one. -/
theorem performAll_chunks (before : List Chunk) (c : Chunk) (after : List Chunk) :
    (focus before c after []).performAll (chunkCalls (c :: after)) =
      chunkResults (c :: after) := by
  have hitems : ∀ c : Chunk, c.items = [] ++ c.items := fun _ => rfl
  induction after generalizing before c with
  | nil =>
    obtain ⟨l, h⟩ := performAll_items before [] (hitems c) [.gotoNextChunk]
    rw [chunkCalls_cons, performAll, getChunkSSRC_focus, performAll, gotoFirstItem_focus]
    refine congrArg (fun l => _ :: _ :: l) (h.trans ?_)
    rw [performAll, gotoNextChunk_nil]; rfl
  | cons c' after ih =>
    obtain ⟨l, h⟩ := performAll_items before (c' :: after) (hitems c)
      (.gotoNextChunk :: chunkCalls (c' :: after))
    rw [chunkCalls_cons, performAll, getChunkSSRC_focus, performAll, gotoFirstItem_focus]
    refine congrArg (fun l => _ :: _ :: l) (h.trans ?_)
    rw [performAll, gotoNextChunk_cons, ih]; rfl

end SDESView

/-- **Going through all chunks and all items** returns each of them once, in their order, and
    then `false`. -/
theorem sdes_reads_all (known : p.knownformat = true) (h : Carries p.data chunks) :
    p.performAll (.gotoFirstChunk :: chunkCalls chunks) =
      some (.bool (decide (chunks ≠ [])) :: chunkResults chunks) := by
  obtain ⟨p', hp', hshows⟩ := agrees_gotoFirstChunk (v := ⟨chunks, none⟩) known h
  rw [RTCPSDESPacket.performAll, hp']
  simp only [Option.bind_eq_bind, Option.bind_some, hshows.performAll, Option.pure_def]
  cases chunks with
  | nil => rfl
  | cons c after =>
    exact congrArg (fun l => some (.bool true :: l)) (SDESView.performAll_chunks [] c after)

theorem sdes_reads_all_twoChunks : twoChunksPacket.performAll
    [.gotoFirstChunk, .getChunkSSRC, .gotoFirstItem, .getItemType, .getItem, .gotoNextItem,
      .getItemType, .getItem, .gotoNextItem, .gotoNextChunk, .getChunkSSRC, .gotoFirstItem,
      .gotoNextChunk] =
    some [.bool true, .ssrc 7, .bool true, .type .CNAME, .bytes 2 (some [97, 98]), .bool true,
      .type .PRIV, .bytes 3 (some [1, 120, 121]), .bool false, .bool true, .ssrc 9, .bool false,
      .bool false] :=
  sdes_reads_all rfl carries_twoChunks

end

end RayionClient
