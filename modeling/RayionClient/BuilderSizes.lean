/-
  The bytes that a compound packet needs.

  `SDES.buildAll_neededBytes`: after any calls, `NeededBytes` is the length of the source
  description packets about the sources added, 31 at most in each.
  `SDES.neededBytes_foreseen`: `NeededBytesWithExtraItem` is what `NeededBytes` will be, and
  so is `NeededBytesWithExtraSource`, except before the first source.
  `Report.neededBytes_eq` is the same for report blocks.
-/
import RayionClient.CompoundBuilder
import RayionClient.ReportFormat
import RayionClient.SDESFormat
import RayionClient.Base.Groups

namespace RayionClient

open Base

theorem packetCount_eq {α : Type} (l : List α) : packetCount l.length = (groups 31 l).length :=
  (length_groups (by decide) l).symm

/-! ## Sources -/

/-- The length of the packets about some chunks. -/
def sdesSize (chunks : List Chunk) : ℕ :=
  ((groups 31 chunks).map fun g => (sdesPacket g []).length).sum

theorem length_chunkBytes (chunks : List Chunk) :
    (chunkBytes chunks).length = (chunks.map fun c => c.bytes.length).sum := by
  rw [chunkBytes, List.length_flatMap]

theorem sdesSize_eq (chunks : List Chunk) : sdesSize chunks =
    (chunks.map fun c => c.bytes.length).sum + packetCount chunks.length * sizeofCommonHeader := by
  have hlen : ∀ g : List Chunk, (sdesPacket g []).length =
      sizeofCommonHeader + (g.map fun c => c.bytes.length).sum := by
    intro g
    rw [sdesPacket, List.append_nil, List.length_append, length_chunkBytes, length_commonHeader]
  rw [sdesSize, packetCount_eq, ← sum_groups (by decide)]
  exact congrArg List.sum (List.map_congr_left fun g _ => hlen g)

/-- The source for a chunk. -/
def SDESSource.of (c : Chunk) : SDESSource :=
  ⟨c.ssrc, c.items.map Record.bytes, (recordBytes c.items).length⟩

/-- The sources for some chunks; the iterator is at the last one. -/
def SDES.of (chunks : List Chunk) : SDES :=
  ⟨chunks.map SDESSource.of, if chunks = [] then none else some (chunks.length - 1)⟩

theorem chunkSize_eq (n : ℕ) : SDESSource.chunkSize (n + 1) = 8 + n / 4 * 4 := by
  rw [SDESSource.chunkSize, sizeofUint32]
  split_ifs <;> omega

theorem SDESSource.neededBytes_of (c : Chunk) :
    (SDESSource.of c).neededBytes = c.bytes.length := by
  rw [neededBytes, chunkSize_eq, c.length_bytes]; rfl

/-- A chunk with one more item. -/
def Chunk.addItem (c : Chunk) (r : Record) : Chunk := { c with items := c.items ++ [r] }

theorem SDESSource.addItem_of (c : Chunk) (r : Record) :
    (SDESSource.of c).addItem r.bytes = .of (c.addItem r) := by
  simp [addItem, of, Chunk.addItem, recordBytes]

theorem SDESSource.neededBytesWithExtraItem_of (c : Chunk) (r : Record) :
    (SDESSource.of c).neededBytesWithExtraItem (UInt8.ofNat r.body.length) =
      (SDESSource.of (c.addItem r)).neededBytes := by
  have hlen : (recordBytes c.items).length + sizeofSDESHeader + r.body.length =
      (recordBytes (c.items ++ [r])).length := by
    rw [recordBytes_append, List.length_append, recordBytes_cons, List.length_append,
      Record.length_bytes, sizeofSDESHeader, Nat.add_assoc]
    rfl
  rw [neededBytesWithExtraItem, neededBytes, r.length_toNat]
  exact congrArg (fun n => chunkSize (n + 1)) hlen

/-- One call, on chunks. -/
def buildChunks (chunks : List Chunk) : SDESBuild → ℤ × List Chunk
  | .clear => (0, [])
  | .addSSRC ssrc allocated =>
    if allocated then (0, chunks ++ [⟨ssrc, []⟩]) else (outOfMem, chunks)
  | .addItem r =>
    match chunks.getLast? with
    | none => (noCurrentSource, chunks)
    | some c => (0, chunks.dropLast ++ [c.addItem r])

/-- One call after the other, on chunks. -/
def buildAllChunks (chunks : List Chunk) : List SDESBuild → List ℤ × List Chunk
  | [] => ([], chunks)
  | call :: calls =>
    let (status, chunks) := buildChunks chunks call
    let (statuses, chunks) := buildAllChunks chunks calls
    (status :: statuses, chunks)

namespace SDES

theorem of_snoc (l : List Chunk) (c : Chunk) :
    SDES.of (l ++ [c]) = ⟨l.map SDESSource.of ++ [.of c], some l.length⟩ := by
  simp [SDES.of]

theorem of_eq_nil_iff (chunks : List Chunk) : (SDES.of chunks).sdessources = [] ↔ chunks = [] :=
  List.map_eq_nil_iff

theorem addItem_snoc (l : List Chunk) (c : Chunk) (r : Record) :
    (SDES.of (l ++ [c])).addItem r.bytes = some (0, .of (l ++ [c.addItem r])) := by
  rw [of_snoc, of_snoc, addItem, if_neg (by simp)]
  simp [SDESSource.addItem_of]

/-- One call keeps the sources those of the chunks, and the iterator at the last one. -/
theorem build_of (chunks : List Chunk) (call : SDESBuild) : (SDES.of chunks).build call =
    some ((buildChunks chunks call).1, .of (buildChunks chunks call).2) := by
  cases call with
  | clear => rfl
  | addSSRC ssrc allocated =>
    cases allocated with
    | false => rfl
    | true =>
      have hnew : SDESSource.of ⟨ssrc, []⟩ = SDESSource.new ssrc := rfl
      simp [build, addSSRC, buildChunks, hnew, SDES.of]
  | addItem r =>
    rcases List.eq_nil_or_concat chunks with rfl | ⟨l, c, rfl⟩
    · rfl
    · rw [List.concat_eq_append, build, addItem_snoc, buildChunks, List.getLast?_concat,
        List.dropLast_concat]

theorem buildAll_of (chunks : List Chunk) (calls : List SDESBuild) :
    (SDES.of chunks).buildAll calls =
      some ((buildAllChunks chunks calls).1, .of (buildAllChunks chunks calls).2) := by
  induction calls generalizing chunks with
  | nil => rfl
  | cons call calls ih =>
    rw [buildAll, build_of, buildAllChunks]
    simp only [Option.bind_eq_bind, Option.bind_some, ih, Option.pure_def]

theorem map_neededBytes (chunks : List Chunk) : (SDES.of chunks).sdessources.map
    SDESSource.neededBytes = chunks.map fun c => c.bytes.length := by
  rw [SDES.of, List.map_map]
  exact List.map_congr_left fun c _ => SDESSource.neededBytes_of c

theorem neededBytes_of (chunks : List Chunk) : (SDES.of chunks).neededBytes = sdesSize chunks := by
  have hlen : (SDES.of chunks).sdessources.length = chunks.length := List.length_map _
  rw [neededBytes, hlen, map_neededBytes, sdesSize_eq]
  split_ifs with h
  · rw [(of_eq_nil_iff chunks).1 h]; rfl
  · rfl

/-- **After any calls**, `NeededBytes` is the length of the packets about the sources. -/
theorem buildAll_neededBytes (calls : List SDESBuild) : ∃ s, ∃ gs : List (List Chunk),
    SDES.new.buildAll calls = some ((buildAllChunks [] calls).1, s) ∧
      gs.flatten = (buildAllChunks [] calls).2 ∧
      (∀ g ∈ gs, g ≠ [] ∧ Carries (sdesPacket g []) g) ∧
      s.neededBytes = (gs.map fun g => (sdesPacket g []).length).sum := by
  refine ⟨_, groups 31 (buildAllChunks [] calls).2, buildAll_of [] calls,
    flatten_groups (k := 31) (by decide) _, fun g hg => ?_, ?_⟩
  · obtain ⟨hne, hle⟩ := mem_groups (by decide) hg
    exact ⟨hne, carries_sdesPacket hle []⟩
  · rw [neededBytes_of, sdesSize]

/-! ### What the next call will need -/

theorem neededBytesWithExtraItem_snoc (l : List Chunk) (c : Chunk) (r : Record) :
    (SDES.of (l ++ [c])).neededBytesWithExtraItem (UInt8.ofNat r.body.length) =
      some (SDES.of (l ++ [c.addItem r])).neededBytes := by
  have htake : (SDES.of (l ++ [c])).sdessources.take l.length = l.map SDESSource.of := by
    simp [SDES.of]
  have hget : (SDES.of (l ++ [c])).sdessources[l.length]? = some (.of c) := by simp [SDES.of]
  have hne : (SDES.of (l ++ [c])).sdessources ≠ [] := by simp [SDES.of]
  have hne' : (SDES.of (l ++ [c.addItem r])).sdessources ≠ [] := by simp [SDES.of]
  have hsdesit : (SDES.of (l ++ [c])).sdesit = some l.length := by simp [SDES.of]
  rw [neededBytesWithExtraItem, neededBytes, if_neg hne, if_neg hne', hsdesit]
  simp only [Option.bind_eq_bind, Option.bind_some, htake, hget,
    SDESSource.neededBytesWithExtraItem_of]
  simp [SDES.of]

/-- They are foreseen for every other source. -/
theorem neededBytesWithExtraSource_of (chunks : List Chunk) (ssrc : UInt32) :
    (SDES.of chunks).neededBytesWithExtraSource = (SDES.of (chunks ++ [⟨ssrc, []⟩])).neededBytes ↔
      chunks ≠ [] := by
  have hlen : (SDES.of chunks).sdessources.length = chunks.length := List.length_map _
  have hsum : ((SDES.of chunks).sdessources.map SDESSource.neededBytes).sum =
      (chunks.map fun c => c.bytes.length).sum := by rw [map_neededBytes]
  rw [neededBytesWithExtraSource, neededBytes_of, sdesSize_eq, hlen, hsum, List.map_append,
    List.sum_append, List.length_append]
  cases chunks with
  | nil =>
    rw [if_pos ((of_eq_nil_iff []).2 rfl)]
    simp only [List.map_nil, List.map_cons, List.sum_cons, List.length_nil, List.length_cons,
      Chunk.length_bytes]
    decide
  | cons c l =>
    rw [if_neg (by simp [SDES.of])]
    simp [Chunk.length_bytes, recordBytes, sizeofUint32]

/-- Before the first source, no bytes are foreseen for it. -/
theorem neededBytesWithExtraSource_of_nil (ssrc : UInt32) :
    (SDES.of []).neededBytesWithExtraSource = 0 ∧ 0 < (SDES.of [⟨ssrc, []⟩]).neededBytes := by
  refine ⟨rfl, ?_⟩
  rw [neededBytes_of, sdesSize_eq, List.map_singleton, List.sum_singleton, Chunk.length_bytes]
  exact Nat.add_pos_left (by omega) _

/-- **The bytes needed are foreseen** in any state, but for the first source: for it, none are. -/
theorem neededBytes_foreseen {calls : List SDESBuild} {statuses : List ℤ} {s : SDES}
    (h : SDES.new.buildAll calls = some (statuses, s)) :
    (∀ r s', s.build (.addItem r) = some (0, s') →
      s.neededBytesWithExtraItem (UInt8.ofNat r.body.length) = some s'.neededBytes) ∧
    (∀ ssrc s', s.build (.addSSRC ssrc true) = some (0, s') →
      (s.neededBytesWithExtraSource = s'.neededBytes ↔ s.sdessources ≠ []) ∧
      (s.sdessources = [] → s.neededBytesWithExtraSource = 0 ∧ 0 < s'.neededBytes)) := by
  obtain ⟨-, rfl⟩ : (buildAllChunks [] calls).1 = statuses ∧
      SDES.of (buildAllChunks [] calls).2 = s := by
    simpa using (buildAll_of [] calls).symm.trans h
  generalize (buildAllChunks [] calls).2 = chunks
  refine ⟨fun r s' hr => ?_, fun ssrc s' hs => ?_⟩
  · rcases List.eq_nil_or_concat chunks with rfl | ⟨l, c, rfl⟩
    · -- there is no current source
      exact absurd hr (by simp [build, addItem, SDES.of, noCurrentSource])
    · rw [List.concat_eq_append] at hr ⊢
      rw [build, addItem_snoc] at hr
      obtain rfl : SDES.of (l ++ [c.addItem r]) = s' := by simpa using hr
      exact neededBytesWithExtraItem_snoc l c r
  · rw [build_of] at hs
    obtain rfl : SDES.of (chunks ++ [⟨ssrc, []⟩]) = s' := by simpa [buildChunks] using hs
    rw [ne_eq, of_eq_nil_iff]
    refine ⟨neededBytesWithExtraSource_of chunks ssrc, ?_⟩
    rintro rfl
    exact neededBytesWithExtraSource_of_nil ssrc

/-- An item is foreseen, the first source is not. -/
theorem neededBytes_foreseen_firstSource :
    (SDES.of [⟨7, []⟩]).neededBytesWithExtraItem 2 = some 16 ∧
      SDES.new.neededBytesWithExtraSource = 0 ∧ 0 < (SDES.of [⟨7, []⟩]).neededBytes := by
  have hempty : SDES.new.buildAll [] = some ([], SDES.new) := rfl
  have hsource : SDES.new.buildAll [.addSSRC 7 true] = some ([0], SDES.of [⟨7, []⟩]) := rfl
  constructor
  · exact (neededBytes_foreseen hsource).1 ⟨1, [97, 98], by decide, by decide⟩ _ rfl
  · exact ((neededBytes_foreseen hempty).2 7 _ rfl).2 rfl

end SDES

/-! ## Report blocks -/

/-- The packets of a report: the first one as it is, and receiver reports for the blocks that are
    too many for it. -/
def reportPackets (c : ReportContent) : List (List UInt8) :=
  match groups 31 c.blocks with
  | [] => [c.packet []]
  | g :: gs => ({ c with blocks := g } : ReportContent).packet [] ::
      gs.map fun g => (⟨c.sender, none, g⟩ : ReportContent).packet []

namespace Report

/-- The size of a receiver report. -/
theorem length_receiverReport (sender : UInt32) (g : List ReportBlock) :
    ((⟨sender, none, g⟩ : ReportContent).packet []).length =
      8 + (g.map fun _ => sizeofReceiverReport).sum := by
  rw [ReportContent.length_packet]; simp

theorem blocksSize_eq {rep : Report} {c : ReportContent} (isSR : rep.isSR = c.info.isSome)
    (hne : c.blocks ≠ []) :
    rep.blocksSize c.blocks.length = ((reportPackets c).map List.length).sum := by
  have hflat := flatten_groups (k := 31) (by decide) c.blocks
  have hsum := sum_groups (k := 31) (by decide) 8 (fun _ : ReportBlock => sizeofReceiverReport)
    c.blocks
  have hconst : ∀ l : List ReportBlock, (l.map fun _ => sizeofReceiverReport).sum =
      l.length * sizeofReceiverReport := fun l => by simp
  rw [← packetCount_eq, hconst] at hsum
  rw [reportPackets]
  cases hgs : groups 31 c.blocks with
  | nil => rw [hgs] at hflat; exact absurd hflat.symm hne
  | cons g gs =>
    -- the first packet is longer by the sender information
    have hfirst : (({ c with blocks := g } : ReportContent).packet []).length =
        8 + (g.map fun _ => sizeofReceiverReport).sum +
          if c.info.isSome then sizeofSenderReport else 0 := by
      rw [ReportContent.length_packet, hconst, List.length_nil, Nat.add_zero]
      exact Nat.add_right_comm _ _ _
    rw [hgs, List.map_cons, List.sum_cons] at hsum
    simp only [List.map_cons, List.sum_cons, List.map_map, Function.comp_def, hfirst,
      length_receiverReport]
    rw [Nat.add_right_comm, hsum, blocksSize, isSR]
    split_ifs <;> rfl

/-- A report without blocks. -/
theorem neededBytes_of_nil {rep : Report} {c : ReportContent}
    (headerlength : rep.headerlength =
      sizeofUint32 + if c.info.isSome then sizeofSenderReport else 0)
    (hrep : rep.reportblocks.length = 0) (hnil : c.blocks = []) :
    rep.neededBytes = ((reportPackets c).map List.length).sum := by
  have hgs : groups 31 c.blocks = [] := by rw [hnil]; rfl
  have hne : rep.headerlength ≠ 0 := by
    rw [headerlength, sizeofUint32]; omega
  rw [reportPackets, hgs, neededBytes, hrep]
  simp only [if_true, if_neg hne, List.map_cons, List.map_nil, List.sum_cons, List.sum_nil,
    ReportContent.length_packet, hnil, List.length_nil]
  rw [headerlength, sizeofUint32, sizeofCommonHeader]
  omega

/-- **The bytes needed for report blocks**, and for one more, are the length of the packets: for
    a report with the header for `c` and one buffer for each block. -/
theorem neededBytes_eq {rep : Report} {c : ReportContent} (isSR : rep.isSR = c.info.isSome)
    (headerlength : rep.headerlength =
      sizeofUint32 + if c.info.isSome then sizeofSenderReport else 0)
    (reportblocks : rep.reportblocks.length = c.blocks.length) (b : ReportBlock) :
    rep.neededBytes = ((reportPackets c).map List.length).sum ∧
      rep.neededBytesWithExtraReportBlock =
        ((reportPackets { c with blocks := c.blocks ++ [b] }).map List.length).sum := by
  constructor
  · by_cases hnil : c.blocks = []
    · exact neededBytes_of_nil headerlength (by rw [reportblocks, hnil]; rfl) hnil
    · have hpos : c.blocks.length ≠ 0 := fun h => hnil (List.length_eq_zero_iff.1 h)
      rw [neededBytes, reportblocks]
      simp only [hpos, if_false]
      exact blocksSize_eq isSR hnil
  · have hsize := blocksSize_eq (c := { c with blocks := c.blocks ++ [b] }) isSR (by simp)
    rw [← hsize, neededBytesWithExtraReportBlock, reportblocks, List.length_append]
    rfl

/-- The sender report, while it is built. -/
def startedReport : Report := ⟨true, 24, senderReport.blocks.map ReportBlock.bytes⟩

theorem neededBytes_startedReport :
    startedReport.neededBytes = 76 ∧ startedReport.neededBytesWithExtraReportBlock = 100 := by
  have hblocks : startedReport.reportblocks.length = senderReport.blocks.length := rfl
  obtain ⟨hneeded, hextra⟩ :=
    neededBytes_eq (c := senderReport) rfl rfl hblocks ⟨11, 0, 0, 0, 0, 0, 0, by decide⟩
  rw [hneeded, hextra]
  decide

end Report

end RayionClient
