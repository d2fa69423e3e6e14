import AssetResolver.Casc.Blte
import AssetResolver.Formats.Root

/-!
# Writing containers

The writer of the BLTE container, and what its parser accepts: **exactly what the writer writes**,
of containers whose table describes their chunks (`AssetResolver.Blte.BlteFile.Stands`), and
anything behind the last chunk of a table (`AssetResolver.Blte.parse_eq_ok_iff`). The size that
the header announces for itself is read and never compared with anything.

The parser panics where the flags of a table are unknown, and nowhere else
(`AssetResolver.Blte.parse_eq_panic_iff`).
-/

namespace AssetResolver

namespace Blte

open ByteReader Layout

/-! ### The writer -/

/-- `HeaderFlags`, as a byte. -/
def HeaderFlags.asByte : HeaderFlags → UInt8
  | .standard => 0x0f
  | .extended => 0x10

/-- `ChunkInfo::write_options`. -/
def writeChunkInfo (flags : HeaderFlags) (info : ChunkInfo) : List UInt8 :=
  uint32.reversed.encode info.compressedSize ++ (uint32.reversed.encode info.decompressedSize ++
    (info.checksum.bytes ++
      match flags with
      | .extended => (info.decompressedChecksum.getD (Key.constant 0)).bytes
      | .standard => []))

/-- `ExtendedHeader::write_options`. -/
def writeExtendedHeader (extended : ExtendedHeader) : List UInt8 :=
  [extended.flags.asByte] ++ ([UInt8.ofNat (extended.chunkCount / 256 / 256),
    UInt8.ofNat (extended.chunkCount / 256), UInt8.ofNat extended.chunkCount] ++
      extended.chunkInfos.flatMap (writeChunkInfo extended.flags))

/-- `BlteHeader::write_options`. -/
def writeHeader (header : BlteHeader) : List UInt8 :=
  osString "BLTE" ++ (uint32.reversed.encode header.headerSize ++
    (header.extended.map writeExtendedHeader).getD [])

/-- `BlteFile::write_options`. -/
def BlteFile.write (file : BlteFile) : List UInt8 :=
  writeHeader file.header ++ file.chunks.flatMap ChunkData.compressedData

/-! ### The parts of the parser -/

/-- A checksum is a value of the layout of keys. -/
theorem readChecksum_eq : readChecksum = value .unexpectedEof Key.layout := by
  funext input
  change (if h : input.length < 16 then _ else _) =
    (exactly ParseError.unexpectedEof 16 >>= fun bytes => pure (Key.layout.decode bytes)) input
  by_cases h : input.length < 16
  · rw [dif_pos h, bind_of_eq_error (e := ParseError.unexpectedEof) (by rw [exactly, if_pos h])]
  · have htake : (input.take 16).length = 16 := by
      rw [List.length_take]
      omega
    have hread : exactly ParseError.unexpectedEof 16 input =
        .ok (input.take 16, input.drop 16) := by rw [exactly, if_neg h]
    rw [dif_neg h, bind_of_eq_ok hread]
    simp only [Key.layout, dif_pos htake]
    rfl

theorem readChunkInfos_eq (flags : HeaderFlags) (count : ℕ) :
    readChunkInfos flags count = several (readChunkInfo flags) count := by
  induction count with
  | zero => rfl
  | succ count ih => rw [readChunkInfos, several, ih]

theorem readChunks_eq (infos : List ChunkInfo) :
    readChunks infos = each (fun info => readChunk info.compressedSize.toNat) infos := by
  induction infos with
  | nil => rfl
  | cons info infos ih => rw [readChunks, each, ih]

theorem fromByte_asByte (mode : CompressionMode) :
    CompressionMode.fromByte mode.asByte = some mode := by
  cases mode <;> rfl

theorem asByte_of_fromByte {byte : UInt8} {mode : CompressionMode}
    (h : CompressionMode.fromByte byte = some mode) : mode.asByte = byte := by
  simpa using List.find?_some h

/-- A byte is read as flags if the flags are written as that byte. -/
theorem HeaderFlags.fromByte_eq_some {byte : UInt8} {flags : HeaderFlags} :
    HeaderFlags.fromByte byte = some flags ↔ flags.asByte = byte := by
  unfold HeaderFlags.fromByte
  constructor
  · intro h
    split_ifs at h with hstandard hextended
    · rw [← Option.some.inj h, hstandard]
      rfl
    · rw [← Option.some.inj h, hextended]
      rfl
  · rintro rfl
    cases flags <;> rfl

/-! ### A row of the table -/

/-- A row has a second checksum where the flags say so. -/
def ChunkInfo.Fits (flags : HeaderFlags) (info : ChunkInfo) : Prop :=
  info.decompressedChecksum.isSome ↔ flags = .extended

/-- **A row is read back**, if it has the checksums that the flags announce. -/
theorem reads_readChunkInfo {flags : HeaderFlags} {info : ChunkInfo} (h : info.Fits flags) :
    Reads (readChunkInfo flags) (writeChunkInfo flags info) info := by
  have hchecksum : ∀ key : Key, Reads readChecksum key.bytes key := fun key => by
    rw [readChecksum_eq]
    exact reads_value _ Key.layout key
  have hu32 : ∀ n, Reads readU32 (uint32.reversed.encode n) n := fun n => reads_value _ _ n
  obtain ⟨compressedSize, decompressedSize, checksum, decompressedChecksum⟩ := info
  refine (hu32 _).bind ((hu32 _).bind ((hchecksum _).bind ?_))
  cases flags with
  | standard =>
    have hnone : decompressedChecksum = none := by
      simpa [ChunkInfo.Fits] using h
    subst hnone
    exact (reads_pure _).nil_bind (reads_pure _)
  | extended =>
    obtain ⟨key, rfl⟩ := Option.isSome_iff_exists.mp (h.mpr rfl)
    exact ((hchecksum key).map (g := some)).bind_nil (reads_pure _)

/-- **A row that was read is what stands there.** -/
theorem writeChunkInfo_of_read {flags : HeaderFlags} {info : ChunkInfo} {input rest : List UInt8}
    (h : readChunkInfo flags input = .ok (info, rest)) :
    info.Fits flags ∧ input = writeChunkInfo flags info ++ rest := by
  obtain ⟨compressedSize, later₁, hcompressed, h⟩ := bind_eq_ok_iff.mp h
  obtain ⟨decompressedSize, later₂, hdecompressed, h⟩ := bind_eq_ok_iff.mp h
  obtain ⟨checksum, later₃, hchecksum, h⟩ := bind_eq_ok_iff.mp h
  rw [readChecksum_eq] at hchecksum
  rw [spells_value _ _ _ _ _ hcompressed, spells_value _ _ _ _ _ hdecompressed,
    spells_value _ _ _ _ _ hchecksum]
  cases flags with
  | standard =>
    obtain ⟨rfl, rfl⟩ := pure_eq_ok_iff.mp h
    exact ⟨by simp [ChunkInfo.Fits], by simp [writeChunkInfo, Key.layout]⟩
  | extended =>
    obtain ⟨second, later₄, hsecond, h⟩ := bind_eq_ok_iff.mp h
    obtain ⟨rfl, rfl⟩ := pure_eq_ok_iff.mp h
    obtain ⟨key, hkey, rfl⟩ := fmap_eq_ok_iff.mp hsecond
    rw [readChecksum_eq] at hkey
    rw [spells_value _ _ _ _ _ hkey]
    exact ⟨by simp [ChunkInfo.Fits], by simp [writeChunkInfo, Key.layout]⟩

/-! ### The table -/

/-- The three bytes of the number of rows. -/
theorem reverse_leBytes_three (count : ℕ) : (leBytes 3 count).reverse =
    [UInt8.ofNat (count / 256 / 256), UInt8.ofNat (count / 256), UInt8.ofNat count] := rfl

/-- The table that the header announces. -/
structure ExtendedHeader.Stands (extended : ExtendedHeader) : Prop where
  small : extended.chunkCount < 2 ^ 24
  counted : extended.chunkInfos.length = extended.chunkCount
  rows : ∀ info ∈ extended.chunkInfos, info.Fits extended.flags

/-- **The table is read back.** -/
theorem reads_readExtendedHeader {extended : ExtendedHeader} (h : extended.Stands) :
    Reads readExtendedHeader (writeExtendedHeader extended) extended := by
  obtain ⟨flags, chunkCount, chunkInfos⟩ := extended
  refine (reads_exactly ParseError.unexpectedEof (rfl : [flags.asByte].length = 1)).bind ?_
  have hflags : HeaderFlags.fromByte flags.asByte = some flags :=
    HeaderFlags.fromByte_eq_some.mpr rfl
  refine Reads.nil_bind (a := flags) ?_ ?_
  · rw [List.head?_cons, Option.bind_some, hflags]
    exact reads_pure flags
  · have hthree : [UInt8.ofNat (chunkCount / 256 / 256), UInt8.ofNat (chunkCount / 256),
        UInt8.ofNat chunkCount].length = 3 := rfl
    refine ((reads_exactly ParseError.unexpectedEof hthree).map
      (g := fun bytes => leNat bytes.reverse)).bind ?_
    have hsmall : chunkCount < 256 ^ 3 := h.small
    have hcount : leNat [UInt8.ofNat (chunkCount / 256 / 256), UInt8.ofNat (chunkCount / 256),
        UInt8.ofNat chunkCount].reverse = chunkInfos.length := by
      rw [← reverse_leBytes_three, List.reverse_reverse, leNat_leBytes,
        Nat.mod_eq_of_lt hsmall]
      exact h.counted.symm
    rw [hcount, readChunkInfos_eq]
    have hrows : Reads (several (readChunkInfo flags) chunkInfos.length)
        (chunkInfos.flatMap (writeChunkInfo flags)) (chunkInfos.map id) :=
      reads_several fun info hinfo => reads_readChunkInfo (h.rows info hinfo)
    rw [List.map_id] at hrows
    have hcounted : chunkInfos.length = chunkCount := h.counted
    rw [← hcounted]
    exact hrows.bind_nil (reads_pure _)

/-- **A table that was read is what stands there**, and its rows are as many as it says. -/
theorem writeExtendedHeader_of_read {extended : ExtendedHeader} {input rest : List UInt8}
    (h : readExtendedHeader input = .ok (extended, rest)) :
    extended.Stands ∧ input = writeExtendedHeader extended ++ rest := by
  obtain ⟨byte, later₁, hbyte, h⟩ := bind_eq_ok_iff.mp h
  obtain ⟨flags, later₂, hflags, h⟩ := bind_eq_ok_iff.mp h
  obtain ⟨chunkCount, later₃, hcount, h⟩ := bind_eq_ok_iff.mp h
  obtain ⟨chunkInfos, later₄, hinfos, h⟩ := bind_eq_ok_iff.mp h
  obtain ⟨rfl, rfl⟩ := pure_eq_ok_iff.mp h
  obtain ⟨bytes, hbytes, rfl⟩ := fmap_eq_ok_iff.mp hcount
  have hlength : bytes.length = 3 := length_of_exactly_eq_ok hbytes
  have hbyteLength : byte.length = 1 := length_of_exactly_eq_ok hbyte
  obtain ⟨b, rfl⟩ := List.length_eq_one_iff.mp hbyteLength
  rw [readChunkInfos_eq] at hinfos
  have hread : HeaderFlags.fromByte b = some flags ∧ later₁ = later₂ := by
    rw [List.head?_cons, Option.bind_some] at hflags
    cases hfrom : HeaderFlags.fromByte b with
    | none =>
      rw [hfrom] at hflags
      exact absurd hflags throw_ne_ok
    | some found =>
      rw [hfrom] at hflags
      obtain ⟨rfl, hlater⟩ := pure_eq_ok_iff.mp hflags
      exact ⟨rfl, hlater⟩
  obtain ⟨hfrom, rfl⟩ := hread
  have hcounted := length_of_several hinfos
  refine ⟨⟨?_, hcounted, ?_⟩, ?_⟩
  · change leNat bytes.reverse < 2 ^ 24
    calc leNat bytes.reverse < 256 ^ bytes.reverse.length := leNat_lt _
      _ = 256 ^ 3 := by rw [List.length_reverse, hlength]
      _ = 2 ^ 24 := by norm_num
  · exact forall_mem_several (fun _ _ _ h => (writeChunkInfo_of_read h).1) hinfos
  · have hthree : [UInt8.ofNat (leNat bytes.reverse / 256 / 256),
        UInt8.ofNat (leNat bytes.reverse / 256), UInt8.ofNat (leNat bytes.reverse)] = bytes := by
      have hback := leBytes_leNat bytes.reverse
      rw [List.length_reverse, hlength] at hback
      calc _ = (leBytes 3 (leNat bytes.reverse)).reverse := (reverse_leBytes_three _).symm
        _ = bytes := by rw [hback, List.reverse_reverse]
    have hspells : Spells (readChunkInfo flags) (writeChunkInfo flags) :=
      fun _ _ _ h => (writeChunkInfo_of_read h).2
    rw [spells_exactly _ _ _ _ _ hbyte, spells_exactly _ _ _ _ _ hbytes,
      hspells.several _ _ _ _ hinfos]
    simp [writeExtendedHeader, hthree, HeaderFlags.fromByte_eq_some.mp hfrom]

/-! ### The header and the chunks -/

theorem length_magic : (osString "BLTE").length = 4 := by decide

/-- The header is read back, with a table unless it announces no size. -/
theorem reads_readHeader {header : BlteHeader}
    (hsize : header.headerSize = 0 ↔ header.extended = none)
    (hstands : ∀ extended, header.extended = some extended → extended.Stands) :
    Reads readHeader (writeHeader header) header := by
  obtain ⟨headerSize, extended⟩ := header
  refine (reads_exactly ParseError.unexpectedEof length_magic).bind ?_
  have hu32 : Reads readU32 (uint32.reversed.encode headerSize) headerSize :=
    reads_value _ _ headerSize
  rw [if_neg (by simp)]
  refine hu32.bind ?_
  cases extended with
  | none =>
    have hzero : headerSize = 0 := hsize.mpr rfl
    rw [if_pos hzero]
    exact reads_pure _
  | some extended =>
    have hne : headerSize ≠ 0 := fun hzero => nomatch hsize.mp hzero
    rw [if_neg hne]
    exact (reads_readExtendedHeader (hstands extended rfl)).bind_nil (reads_pure _)

/-- A header that was read is what stands there. -/
theorem writeHeader_of_read {header : BlteHeader} {input rest : List UInt8}
    (h : readHeader input = .ok (header, rest)) :
    (header.headerSize = 0 ↔ header.extended = none) ∧
      (∀ extended, header.extended = some extended → extended.Stands) ∧
      input = writeHeader header ++ rest := by
  obtain ⟨magic, later₁, hmagic, h⟩ := bind_eq_ok_iff.mp h
  split_ifs at h with hother
  · obtain ⟨_, _, hthrow, -⟩ := bind_eq_ok_iff.mp h
    exact absurd hthrow throw_ne_ok
  · rw [not_not] at hother
    subst hother
    obtain ⟨headerSize, later₂, hsize, h⟩ := bind_eq_ok_iff.mp h
    rw [spells_exactly _ _ _ _ _ hmagic, spells_value _ _ _ _ _ hsize]
    split_ifs at h with hzero
    · obtain ⟨rfl, rfl⟩ := pure_eq_ok_iff.mp h
      exact ⟨by simp [hzero], by rintro _ ⟨⟩, by simp [writeHeader]⟩
    · obtain ⟨extended, later₃, hextended, h⟩ := bind_eq_ok_iff.mp h
      obtain ⟨rfl, rfl⟩ := pure_eq_ok_iff.mp h
      obtain ⟨hstands, rfl⟩ := writeExtendedHeader_of_read hextended
      refine ⟨by simp [hzero], ?_, by simp [writeHeader]⟩
      rintro _ ⟨⟩
      exact hstands

/-- A chunk is read back where its size is known. -/
theorem reads_readChunk {chunk : ChunkData} {size : ℕ} (h : size = chunk.compressedData.length) :
    Reads (readChunk size) chunk.compressedData chunk := by
  obtain ⟨mode, data⟩ := chunk
  obtain rfl : size = data.length + 1 := h
  rw [readChunk, if_neg (Nat.succ_ne_zero _)]
  change Reads _ ([mode.asByte] ++ data) _
  refine ((reads_exactly ParseError.unexpectedEof (rfl : [mode.asByte].length = 1)).map
    (g := fun bytes : List UInt8 => bytes.headD 0)).bind (Reads.nil_bind (a := mode) ?_ ?_)
  · rw [List.headD_cons, fromByte_asByte]
    exact reads_pure mode
  · exact (reads_exactly ParseError.unexpectedEof (Nat.add_sub_cancel ..).symm).bind_nil
      (reads_pure _)

/-- A chunk that was read is what stands there, and fills the size it was read with. -/
theorem compressedData_of_read {chunk : ChunkData} {size : ℕ} {input rest : List UInt8}
    (h : readChunk size input = .ok (chunk, rest)) :
    size = chunk.compressedData.length ∧ input = chunk.compressedData ++ rest := by
  unfold readChunk at h
  split_ifs at h with hzero
  · obtain ⟨_, _, hthrow, -⟩ := bind_eq_ok_iff.mp h
    exact absurd hthrow throw_ne_ok
  · obtain ⟨byte, later₁, hbyte, h⟩ := bind_eq_ok_iff.mp h
    obtain ⟨mode, later₂, hmode, h⟩ := bind_eq_ok_iff.mp h
    obtain ⟨data, later₃, hdata, h⟩ := bind_eq_ok_iff.mp h
    obtain ⟨rfl, rfl⟩ := pure_eq_ok_iff.mp h
    obtain ⟨bytes, hbytes, rfl⟩ := fmap_eq_ok_iff.mp hbyte
    obtain ⟨b, rfl⟩ := List.length_eq_one_iff.mp (length_of_exactly_eq_ok hbytes)
    have hlength : data.length = size - 1 := length_of_exactly_eq_ok hdata
    have hread : CompressionMode.fromByte b = some mode ∧ later₁ = later₂ := by
      rw [List.headD_cons] at hmode
      cases hfrom : CompressionMode.fromByte b with
      | none =>
        rw [hfrom] at hmode
        exact absurd hmode throw_ne_ok
      | some found =>
        rw [hfrom] at hmode
        obtain ⟨rfl, hlater⟩ := pure_eq_ok_iff.mp hmode
        exact ⟨rfl, hlater⟩
    obtain ⟨hfrom, rfl⟩ := hread
    rw [spells_exactly _ _ _ _ _ hbytes, spells_exactly _ _ _ _ _ hdata]
    refine ⟨?_, by simp [ChunkData.compressedData, asByte_of_fromByte hfrom]⟩
    change size = data.length + 1
    omega

/-! ### What is accepted -/

/-- **A container whose header describes it.** -/
structure BlteFile.Stands (file : BlteFile) : Prop where
  size : file.header.headerSize = 0 ↔ file.header.extended = none
  single : file.header.extended = none → file.chunks.length ≤ 1
  table : ∀ extended, file.header.extended = some extended → extended.Stands ∧
    List.Forall₂ (fun info chunk => info.compressedSize.toNat = chunk.compressedData.length)
      extended.chunkInfos file.chunks

/-- What is read of the container and what is left, of the header and the chunks. -/
theorem readBlteFile_of_readHeader {header : BlteHeader} {input rest : List UInt8}
    (h : readHeader input = .ok (header, rest)) : readBlteFile input =
      (if header.headerSize = 0 then
        if rest.length = 0 then .ok (⟨header, []⟩, rest)
        else ((fun chunk => ⟨header, [chunk]⟩) <$> readChunk rest.length : Reader BlteFile) rest
      else match header.extended with
        | none => .ok (⟨header, []⟩, rest)
        | some extended => ((fun chunks => ⟨header, chunks⟩) <$>
            readChunks extended.chunkInfos : Reader BlteFile) rest) := by
  rw [readBlteFile, bind_of_eq_ok h]
  split_ifs with hzero hempty
  · change (if rest.length = 0 then _ else _ : Reader BlteFile) rest = _
    rw [if_pos hempty]
    rfl
  · change (if rest.length = 0 then _ else _ : Reader BlteFile) rest = _
    rw [if_neg hempty]
    rfl
  · cases header.extended <;> rfl

theorem read_write {file : BlteFile} (h : file.Stands) {rest : List UInt8}
    (hrest : file.header.extended = none → rest = []) :
    readBlteFile (file.write ++ rest) = .ok (file, rest) := by
  obtain ⟨header, chunks⟩ := file
  have hheader := reads_readHeader h.size (fun extended hextended => (h.table extended hextended).1)
    (chunks.flatMap ChunkData.compressedData ++ rest)
  rw [BlteFile.write, List.append_assoc, readBlteFile_of_readHeader hheader]
  cases hextended : header.extended with
  | none =>
    obtain rfl := hrest hextended
    have hsingle : chunks.length ≤ 1 := h.single hextended
    rw [if_pos (h.size.mpr hextended), List.append_nil]
    rcases chunks with - | ⟨chunk, chunks⟩
    · rfl
    · obtain rfl : chunks = [] := by
        simpa using hsingle
      have hread : Reads (readChunk chunk.compressedData.length) chunk.compressedData chunk :=
        reads_readChunk rfl
      rw [List.flatMap_singleton, if_neg (by simp [ChunkData.compressedData])]
      exact (hread.map (g := fun chunk => BlteFile.mk header [chunk])).eq_ok
  | some extended =>
    have hne : header.headerSize ≠ 0 := fun hzero => by
      rw [h.size.mp hzero] at hextended
      cases hextended
    rw [if_neg hne]
    have hchunks : Reads (each (fun info : ChunkInfo => readChunk info.compressedSize.toNat)
        extended.chunkInfos) (chunks.flatMap ChunkData.compressedData) chunks :=
      reads_each ((h.table extended hextended).2.imp fun info chunk hsize => reads_readChunk hsize)
    dsimp only
    rw [readChunks_eq]
    exact hchunks.map (g := fun chunks => BlteFile.mk header chunks) rest

theorem write_of_read {file : BlteFile} {input rest : List UInt8}
    (h : readBlteFile input = .ok (file, rest)) :
    file.Stands ∧ input = file.write ++ rest ∧ (file.header.extended = none → rest = []) := by
  obtain ⟨header, later, hheader, -⟩ := bind_eq_ok_iff.mp h
  obtain ⟨hsize, htable, hinput⟩ := writeHeader_of_read hheader
  rw [readBlteFile_of_readHeader hheader] at h
  split_ifs at h with hzero hempty
  · obtain ⟨rfl, rfl⟩ := Prod.mk.inj (Except.ok.inj h)
    have hnil := List.length_eq_zero_iff.mp hempty
    refine ⟨⟨hsize, fun _ => Nat.zero_le _, fun extended hextended => ?_⟩, ?_, fun _ => hnil⟩
    · rw [hsize.mp hzero] at hextended
      cases hextended
    · simpa [BlteFile.write] using hinput
  · obtain ⟨chunk, hchunk, rfl⟩ := fmap_eq_ok_iff.mp h
    obtain ⟨hlength, hlater⟩ := compressedData_of_read hchunk
    have hnil : rest = [] := by
      have hlengths := congrArg List.length hlater
      rw [List.length_append] at hlengths
      exact List.length_eq_zero_iff.mp (by omega)
    refine ⟨⟨hsize, fun _ => le_refl 1, fun extended hextended => ?_⟩, ?_, fun _ => hnil⟩
    · have hnone : header.extended = none := hsize.mp hzero
      cases hnone.symm.trans hextended
    · rw [hinput, hlater]
      simp [BlteFile.write]
  · have hne : header.extended ≠ none := fun hnone => hzero (hsize.mpr hnone)
    obtain ⟨extended, hextended⟩ := Option.ne_none_iff_exists'.mp hne
    rw [hextended] at h
    obtain ⟨chunks, hchunks, rfl⟩ := fmap_eq_ok_iff.mp h
    rw [readChunks_eq] at hchunks
    refine ⟨⟨hsize, fun hnone => absurd hnone hne, fun extended' hextended' => ?_⟩, ?_,
      fun hnone => absurd hnone hne⟩
    · obtain rfl := Option.some.inj (hextended.symm.trans hextended')
      have hsizes : ∀ (info : ChunkInfo) (input : List UInt8) (chunk : ChunkData)
          (rest : List UInt8), readChunk info.compressedSize.toNat input = .ok (chunk, rest) →
          info.compressedSize.toNat = chunk.compressedData.length :=
        fun _ _ _ _ hread => (compressedData_of_read hread).1
      exact ⟨htable extended hextended, forall₂_of_each hsizes hchunks⟩
    · have hspells : ∀ info : ChunkInfo,
          Spells (readChunk info.compressedSize.toNat) ChunkData.compressedData :=
        fun _ _ _ _ hread => (compressedData_of_read hread).2
      rw [hinput, Spells.each hspells _ _ _ _ hchunks]
      simp [BlteFile.write]

/-- **What the parser accepts is what the writer writes**, of a container whose header describes
it, and anything behind the chunks of a table. -/
theorem parse_eq_ok_iff {data : List UInt8} {file : BlteFile} :
    parse data = .ok file ↔ file.Stands ∧ ∃ rest, data = file.write ++ rest ∧
      (file.header.extended = none → rest = []) := by
  have hparse : parse data = .ok file ↔ ∃ rest, readBlteFile data = .ok (file, rest) := by
    rw [parse]
    rcases readBlteFile data with e | ⟨found, rest⟩
    · simp
    · simp [eq_comm]
  rw [hparse]
  constructor
  · rintro ⟨rest, h⟩
    obtain ⟨hstands, hdata, hrest⟩ := write_of_read h
    exact ⟨hstands, rest, hdata, hrest⟩
  · rintro ⟨hstands, rest, rfl, hrest⟩
    exact ⟨rest, read_write hstands hrest⟩

/-- The size that a header announces, as it is written. -/
theorem headerSize_of_write {file file' : BlteFile} {rest rest' : List UInt8}
    (h : file.write ++ rest = file'.write ++ rest') :
    file.header.headerSize = file'.header.headerSize := by
  simp only [BlteFile.write, writeHeader, List.append_assoc] at h
  have hsizes := (List.append_inj (List.append_cancel_left h)
    (by rw [Layout.length_encode, Layout.length_encode])).1
  rw [← uint32.reversed.decode_encode file.header.headerSize, hsizes,
    uint32.reversed.decode_encode]

/-! ### What panics -/

theorem avoids_readU32 : Avoids readU32 .panic := avoids_value (by decide) _

/-- No row makes the parser panic. -/
theorem avoids_readChunkInfo (flags : HeaderFlags) : Avoids (readChunkInfo flags) .panic := by
  have hchecksum : Avoids readChecksum .panic := by
    rw [readChecksum_eq]
    exact avoids_value (by decide) _
  refine avoids_readU32.bind fun _ => avoids_readU32.bind fun _ => hchecksum.bind fun _ => ?_
  cases flags with
  | standard => exact (avoids_pure _ _).bind fun _ => avoids_pure _ _
  | extended => exact hchecksum.map.bind fun _ => avoids_pure _ _

/-- No chunk does either: an unknown mode is an error. -/
theorem avoids_readChunk (size : ℕ) : Avoids (readChunk size) .panic := by
  have hmode : ∀ byte : UInt8, Avoids ((CompressionMode.fromByte byte).elim
      (throw (.unknownCompressionMode byte)) pure : Reader CompressionMode) .panic := by
    intro byte
    cases CompressionMode.fromByte byte with
    | none => exact avoids_throw nofun
    | some mode => exact avoids_pure mode _
  unfold readChunk
  split_ifs
  · refine (avoids_throw (by decide)).bind fun _ => ?_
    exact (avoids_exactly (by decide) 1).map.bind fun byte => (hmode byte).bind fun _ =>
      (avoids_exactly (by decide) _).bind fun _ => avoids_pure _ _
  · exact (avoids_exactly (by decide) 1).map.bind fun byte => (hmode byte).bind fun _ =>
      (avoids_exactly (by decide) _).bind fun _ => avoids_pure _ _

/-- The table is read up to the byte of its flags, or for good. -/
theorem readExtendedHeader_eq_panic_iff {input : List UInt8} :
    readExtendedHeader input = .error .panic ↔
      ∃ byte rest, input = byte :: rest ∧ HeaderFlags.fromByte byte = none := by
  have hlater : ∀ flags, Avoids (do
      let chunkCount ← readU24
      let chunkInfos ← readChunkInfos flags chunkCount
      return (⟨flags, chunkCount, chunkInfos⟩ : ExtendedHeader) : Reader ExtendedHeader)
      .panic := by
    refine fun flags => (avoids_exactly (by decide) 3).map.bind fun count => ?_
    rw [readChunkInfos_eq]
    exact ((avoids_readChunkInfo flags).several count).bind fun _ => avoids_pure _ _
  cases input with
  | nil =>
    have herror : readExtendedHeader [] = .error .unexpectedEof := rfl
    simp [herror]
  | cons byte rest =>
    have hbyte : readExact 1 (byte :: rest) = .ok ([byte], rest) := rfl
    rw [readExtendedHeader, bind_of_eq_ok hbyte]
    simp only [List.head?_cons, Option.bind_some, List.cons.injEq]
    cases hflags : HeaderFlags.fromByte byte with
    | none => exact ⟨fun _ => ⟨byte, rest, ⟨rfl, rfl⟩, hflags⟩, fun _ => rfl⟩
    | some flags =>
      constructor
      · intro h
        exact absurd h (hlater flags rest)
      · rintro ⟨_, _, ⟨rfl, rfl⟩, hnone⟩
        cases hflags.symm.trans hnone

/-- A container announces a table, and begins it with flags that are none. -/
def UnknownFlags (data : List UInt8) : Prop :=
  ∃ (headerSize : UInt32) (byte : UInt8) (rest : List UInt8),
    data = osString "BLTE" ++ uint32.reversed.encode headerSize ++ byte :: rest ∧
    headerSize ≠ 0 ∧ HeaderFlags.fromByte byte = none

/-- The header is where the parser panics. -/
theorem readHeader_eq_panic_iff {input : List UInt8} :
    readHeader input = .error .panic ↔ UnknownFlags input := by
  constructor
  · intro h
    rcases bind_eq_error_iff.mp h with h | ⟨magic, later, hmagic, h⟩
    · exact absurd h (avoids_exactly (by decide) 4 input)
    · have hinput := spells_exactly _ _ _ _ _ hmagic
      split_ifs at h with hother
      · rcases bind_eq_error_iff.mp h with h | ⟨_, _, h, -⟩
        · cases h
        · exact absurd h throw_ne_ok
      · rw [not_not] at hother
        rcases bind_eq_error_iff.mp h with h | ⟨headerSize, later', hsize, h⟩
        · exact absurd h (avoids_readU32 later)
        · have hlater := spells_value _ _ _ _ _ hsize
          split_ifs at h with hzero
          · cases h
          · rcases bind_eq_error_iff.mp h with h | ⟨_, _, -, h⟩
            · obtain ⟨byte, rest, rfl, hflags⟩ := readExtendedHeader_eq_panic_iff.mp h
              refine ⟨headerSize, byte, rest, ?_, hzero, hflags⟩
              rw [hinput, hlater, hother, id, List.append_assoc]
            · cases h
  · rintro ⟨headerSize, byte, rest, rfl, hsize, hflags⟩
    have hmagic : readExact 4 (osString "BLTE" ++ (uint32.reversed.encode headerSize ++
        byte :: rest)) = .ok (osString "BLTE", uint32.reversed.encode headerSize ++ byte :: rest) :=
      reads_exactly ParseError.unexpectedEof length_magic _
    have hread : readU32 (uint32.reversed.encode headerSize ++ byte :: rest) =
        .ok (headerSize, byte :: rest) :=
      reads_value ParseError.unexpectedEof uint32.reversed headerSize (byte :: rest)
    have hpanic : readExtendedHeader (byte :: rest) = .error .panic :=
      readExtendedHeader_eq_panic_iff.mpr ⟨byte, rest, rfl, hflags⟩
    rw [readHeader, List.append_assoc, bind_of_eq_ok hmagic, if_neg (by simp)]
    dsimp only
    rw [bind_of_eq_ok hread, if_neg hsize, bind_of_eq_error hpanic]

/-- **The parser panics where the flags of a table are unknown**, whatever stands behind them,
and nowhere else. -/
theorem parse_eq_panic_iff {data : List UInt8} :
    parse data = .error .panic ↔ UnknownFlags data := by
  rw [← readHeader_eq_panic_iff]
  have hparse : parse data = .error .panic ↔ readBlteFile data = .error .panic := by
    rw [parse]
    rcases readBlteFile data with e | ⟨found, rest⟩ <;> simp
  rw [hparse]
  constructor
  · intro h
    rcases bind_eq_error_iff.mp h with h | ⟨header, later, hheader, -⟩
    · exact h
    · exfalso
      rw [readBlteFile_of_readHeader hheader] at h
      split_ifs at h
      · exact (avoids_readChunk _).map _ h
      · cases hextended : header.extended with
        | none =>
          rw [hextended] at h
          cases h
        | some extended =>
          rw [hextended] at h
          dsimp only at h
          rw [readChunks_eq] at h
          exact (Avoids.each (fun info : ChunkInfo => avoids_readChunk info.compressedSize.toNat)
            extended.chunkInfos).map _ h
  · intro h
    rw [readBlteFile, bind_of_eq_error h]

/-- What stands behind unknown flags is not read. -/
theorem UnknownFlags.append {data : List UInt8} (h : UnknownFlags data) (later : List UInt8) :
    UnknownFlags (data ++ later) := by
  obtain ⟨headerSize, byte, rest, rfl, hsize, hflags⟩ := h
  exact ⟨headerSize, byte, rest ++ later, by simp, hsize, hflags⟩

/-- **A table that is cut short is refused**, wherever it is cut, and without a panic. -/
theorem parse_take_write {file : BlteFile} (h : file.Stands) (htable : file.header.extended ≠ none)
    {n : ℕ} (hn : n < file.write.length) :
    ∃ e, parse (file.write.take n) = .error e ∧ e ≠ .panic := by
  have hself : parse file.write = .ok file :=
    parse_eq_ok_iff.mpr ⟨h, [], (List.append_nil _).symm, fun _ => rfl⟩
  rcases hcut : parse (file.write.take n) with e | file'
  · refine ⟨e, rfl, ?_⟩
    rintro rfl
    -- the whole container would panic as well
    have hunknown := (parse_eq_panic_iff.mp hcut).append (file.write.drop n)
    rw [List.take_append_drop, ← parse_eq_panic_iff, hself] at hunknown
    cases hunknown
  · exfalso
    obtain ⟨hstands', rest', hrest', -⟩ := parse_eq_ok_iff.mp hcut
    have hwhole : file.write = file'.write ++ (rest' ++ file.write.drop n) := by
      rw [← List.append_assoc, ← hrest', List.take_append_drop]
    have hsizes : file.header.headerSize = file'.header.headerSize :=
      headerSize_of_write ((List.append_nil _).trans hwhole)
    have htable' : file'.header.extended ≠ none := fun hnone =>
      htable (h.size.mp (hsizes.trans (hstands'.size.mpr hnone)))
    -- the cut container is what the whole input is read as
    have hsame : parse file.write = .ok file' :=
      parse_eq_ok_iff.mpr ⟨hstands', _, hwhole, fun hnone => absurd hnone htable'⟩
    obtain rfl := Except.ok.inj (hself.symm.trans hsame)
    have hlength := congrArg List.length hrest'
    rw [List.length_take, List.length_append] at hlength
    omega

/-- A container with a table of one chunk. -/
def tabledContainer : List UInt8 :=
  osString "BLTE" ++ [0, 0, 0, 36, 0x0f, 0, 0, 1] ++
    ([0, 0, 0, 2, 0, 0, 0, 1] ++ List.replicate 16 0) ++ (osString "N" ++ [7])

theorem parse_take_write_sample :
    ∃ file, parse tabledContainer = .ok file ∧
      ∃ e, parse (file.write.take 37) = .error e ∧ e ≠ .panic := by
  have hparse : parse tabledContainer = .ok _ := rfl
  have hstands := (parse_eq_ok_iff.mp hparse).1
  exact ⟨_, hparse, parse_take_write hstands (Option.some_ne_none _) (by decide)⟩

/-- **The parser has three outcomes**: it accepts what the writer writes, it panics at unknown
flags, and it refuses everything else. -/
theorem parse_outcomes (data : List UInt8) :
    (∀ file, parse data = .ok file ↔ file.Stands ∧ ∃ rest, data = file.write ++ rest ∧
      (file.header.extended = none → rest = [])) ∧
      (parse data = .error .panic ↔ UnknownFlags data) :=
  ⟨fun _ => parse_eq_ok_iff, parse_eq_panic_iff⟩

end Blte

end AssetResolver
