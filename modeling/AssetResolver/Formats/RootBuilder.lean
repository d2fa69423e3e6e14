import Mathlib.Data.Prod.Lex
import AssetResolver.Formats.RootFile
import AssetResolver.Library.Dict
import AssetResolver.Library.StableSort

/-!
# Building root files

The builder keeps its records in blocks, one for each pair of locale and content flags. It is
changed by operations (`AssetResolver.Root.RootBuilder.apply`), and what any sequence of them
leads to is built into bytes.

Whether the bytes are read back is a question of two things
(`AssetResolver.Root.parse_build_iff_faithful`). The header of every block must announce its
records: adding a record counts them, but **removing one does not**
(`AssetResolver.Root.parse_build_removeFile_iff`). And the header of the second version must not
have the numbers of an extended one, which few enough files have.
-/

namespace AssetResolver

namespace Root

open ByteReader Layout LastWins StableSort

/-! ### The builder -/

/-- `RootBuilder`. -/
structure RootBuilder where
  /-- `version`. -/
  version : RootVersion
  /-- `blocks`, by locale and content flags. -/
  blocks : Dict (UInt32 × UInt64) RootBlock

/-- An order in which the blocks are visited. -/
abbrev BlockOrder := IterationOrder ((UInt32 × UInt64) × RootBlock)

/-- `RootBlock::new`. -/
def RootBlock.new (contentFlags : UInt64) (localeFlags : UInt32) : RootBlock :=
  ⟨⟨0, contentFlags, localeFlags⟩, []⟩

/-- `RootBlock::add_record`, which counts the records. -/
def RootBlock.addRecord (block : RootBlock) (record : RootRecord) : RootBlock :=
  let records := block.records ++ [record]
  ⟨{ block.header with numRecords := UInt32.ofNat records.length }, records⟩

/-- The rank of a record. -/
def recordRank (record : RootRecord) : ℕ := record.fileDataId.toNat

/-- `RootBlock::sort_records`. -/
def RootBlock.sortRecords (block : RootBlock) : RootBlock :=
  { block with records := sortBy recordRank block.records }

/-- `RootBuilder::new`. -/
def RootBuilder.new (version : RootVersion) : RootBuilder := ⟨version, ∅⟩

/-- `RootBuilder::add_record`. -/
def RootBuilder.addRecord (builder : RootBuilder) (record : RootRecord) (locale : UInt32)
    (content : UInt64) : RootBuilder :=
  let block := (builder.blocks.get? (locale, content)).getD (.new content locale)
  { builder with blocks := builder.blocks.insert (locale, content) (block.addRecord record) }

/-- A block without the records of a file: its header stays as it is. -/
def RootBlock.without (fdid : UInt32) (block : RootBlock) : RootBlock :=
  { block with records := block.records.filter fun record => record.fileDataId ≠ fdid }

/-- `RootBuilder::remove_file`. -/
def RootBuilder.removeFile (builder : RootBuilder) (fdid : UInt32) : RootBuilder × Bool :=
  ({ builder with
      blocks := (builder.blocks.mapValues fun _ => RootBlock.without fdid).retain
        fun _ block => !block.records.isEmpty },
    builder.blocks.entries.any fun e => (e.2.without fdid).records.length < e.2.records.length)

/-- `RootBuilder::remove_file_from_block`. -/
def RootBuilder.removeFileFromBlock (builder : RootBuilder) (fdid : UInt32) (locale : UInt32)
    (content : UInt64) : RootBuilder × Bool :=
  match builder.blocks.get? (locale, content) with
  | some block =>
    let shortened := block.without fdid
    ({ builder with
        blocks := if shortened.records.isEmpty then builder.blocks.erase (locale, content)
          else builder.blocks.insert (locale, content) shortened },
      shortened.records.length < block.records.length)
  | none => (builder, false)

/-- A record with a new content, if it is for the file. -/
def RootRecord.update (fdid : UInt32) (newKey : Key) (record : RootRecord) : RootRecord :=
  if record.fileDataId = fdid then { record with contentKey := newKey } else record

/-- `RootBuilder::update_file`. -/
def RootBuilder.updateFile (builder : RootBuilder) (fdid : UInt32) (newKey : Key) :
    RootBuilder × ℕ :=
  ({ builder with
      blocks := builder.blocks.mapValues fun _ block =>
        { block with records := block.records.map (RootRecord.update fdid newKey) } },
    (builder.blocks.entries.map fun e =>
      e.2.records.countP fun record => record.fileDataId = fdid).sum)

/-- `RootBuilder::set_version`. -/
def RootBuilder.setVersion (builder : RootBuilder) (version : RootVersion) : RootBuilder :=
  { builder with version := version }

/-- `RootBuilder::clear`. -/
def RootBuilder.clear (builder : RootBuilder) : RootBuilder := { builder with blocks := ∅ }

/-- `RootBuilder::optimize_blocks`. -/
def RootBuilder.optimizeBlocks (builder : RootBuilder) : RootBuilder :=
  { builder with blocks := builder.blocks.mapValues fun _ => RootBlock.sortRecords }

/-- `RootHeader::new_v2`. -/
def RootHeader.newV2 (totalFiles namedFiles : UInt32) : RootHeader :=
  .v2 .mfst ⟨totalFiles, namedFiles⟩

/-- `RootHeader::new_v3v4`. -/
def RootHeader.newV3v4 (version totalFiles namedFiles : UInt32) : RootHeader :=
  .v3v4 .mfst 20 version ⟨totalFiles, namedFiles⟩ 0

/-- The header that `RootBuilder::build` writes. -/
def builtHeader (version : RootVersion) (totalFiles namedFiles : UInt32) : Option RootHeader :=
  match version with
  | .v1 => none
  | .v2 => some (.newV2 totalFiles namedFiles)
  | .v3 => some (.newV3v4 3 totalFiles namedFiles)
  | .v4 => some (.newV3v4 4 totalFiles namedFiles)

/-- The number of records of some blocks, as their headers have it. -/
def totalFiles (blocks : List RootBlock) : UInt32 :=
  (blocks.map fun block => block.header.numRecords).foldl (· + ·) 0

/-- The number of records that have a name. -/
def namedFiles (blocks : List RootBlock) : UInt32 :=
  (blocks.map fun block =>
    UInt32.ofNat (block.records.countP fun record => record.nameHash.isSome)).foldl (· + ·) 0

/-- The rank of a block. -/
def blockRank (e : (UInt32 × UInt64) × RootBlock) : ℕ ×ₗ ℕ := toLex (e.1.1.toNat, e.1.2.toNat)

/-- `RootBuilder::build`: the bytes, and the builder with its records sorted. -/
def RootBuilder.build (builder : RootBuilder) (order : BlockOrder) :
    Except RootError (List UInt8 × RootBuilder) :=
  if builder.blocks.entries = [] then .error (.corruptedBlockHeader "No blocks to build")
  else
    let sorted := builder.optimizeBlocks
    let blocks := (order.arrange sorted.blocks.entries).map Prod.snd
    let header := builtHeader builder.version (totalFiles blocks) (namedFiles blocks)
    let sortedBlocks := sortBy blockRank (order.arrange sorted.blocks.entries)
    .ok ((header.map writeHeader).getD [] ++
      sortedBlocks.flatMap fun e => writeBlock builder.version e.2, sorted)

/-- What a builder can be told to do. -/
inductive BuilderOp where
  /-- `add_record`, with the hash of the path where there is one. -/
  | addRecord (record : RootRecord) (locale : UInt32) (content : UInt64) : BuilderOp
  /-- `remove_file`. -/
  | removeFile (fdid : UInt32) : BuilderOp
  /-- `remove_file_from_block`. -/
  | removeFileFromBlock (fdid : UInt32) (locale : UInt32) (content : UInt64) : BuilderOp
  /-- `update_file`. -/
  | updateFile (fdid : UInt32) (newKey : Key) : BuilderOp
  /-- `set_version`. -/
  | setVersion (version : RootVersion) : BuilderOp
  /-- `clear`. -/
  | clear : BuilderOp
  /-- `optimize_blocks`, and `build`, which sorts the records as well. -/
  | optimizeBlocks : BuilderOp

/-- What an operation does. -/
def RootBuilder.apply (builder : RootBuilder) : BuilderOp → RootBuilder
  | .addRecord record locale content => builder.addRecord record locale content
  | .removeFile fdid => (builder.removeFile fdid).1
  | .removeFileFromBlock fdid locale content => (builder.removeFileFromBlock fdid locale content).1
  | .updateFile fdid newKey => (builder.updateFile fdid newKey).1
  | .setVersion version => builder.setVersion version
  | .clear => builder.clear
  | .optimizeBlocks => builder.optimizeBlocks

/-- A builder that operations lead to. -/
def RootBuilder.Reachable (builder : RootBuilder) : Prop :=
  ∃ version ops, builder = List.foldl RootBuilder.apply (.new version) ops

/-! ### What operations keep -/

/-- The blocks of a builder have the flags they are kept under, and records. -/
structure RootBuilder.WellFormed (builder : RootBuilder) : Prop where
  flags : ∀ key block, (key, block) ∈ builder.blocks.entries →
    block.header.localeFlags = key.1 ∧ block.header.contentFlags = key.2
  nonempty : ∀ key block, (key, block) ∈ builder.blocks.entries → block.records ≠ []

theorem RootBuilder.wellFormed_new (version : RootVersion) : (RootBuilder.new version).WellFormed :=
  ⟨nofun, nofun⟩

/-- The rule for operations that change every block. -/
theorem RootBuilder.WellFormed.mapValues {builder : RootBuilder} (h : builder.WellFormed)
    {f : RootBlock → RootBlock} (hheader : ∀ block, (f block).header = block.header)
    (hrecords : ∀ block, block.records ≠ [] → (f block).records ≠ []) :
    (⟨builder.version, builder.blocks.mapValues fun _ => f⟩ : RootBuilder).WellFormed where
  flags key block hmem := by
    obtain ⟨before, hbefore, rfl⟩ := Dict.mem_entries_mapValues.mp hmem
    rw [hheader]
    exact h.flags key before hbefore
  nonempty key block hmem := by
    obtain ⟨before, hbefore, rfl⟩ := Dict.mem_entries_mapValues.mp hmem
    exact hrecords before (h.nonempty key before hbefore)

theorem RootBlock.sortRecords_ne_nil {block : RootBlock} (h : block.records ≠ []) :
    block.sortRecords.records ≠ [] := by
  rw [← List.length_pos_iff] at h ⊢
  rwa [RootBlock.sortRecords, perm_sortBy.length_eq]

theorem RootBuilder.WellFormed.addRecord {builder : RootBuilder} (h : builder.WellFormed)
    (record : RootRecord) (locale : UInt32) (content : UInt64) :
    (builder.addRecord record locale content).WellFormed where
  flags key block hmem := by
    obtain ⟨rfl, rfl⟩ | ⟨-, hmem⟩ := Dict.mem_entries_insert.mp hmem
    · cases hblock : builder.blocks.get? (locale, content) with
      | none => exact ⟨rfl, rfl⟩
      | some block => exact h.flags _ block (Dict.get?_eq_some_iff.mp hblock)
    · exact h.flags key block hmem
  nonempty key block hmem := by
    obtain ⟨rfl, rfl⟩ | ⟨-, hmem⟩ := Dict.mem_entries_insert.mp hmem
    · exact List.append_ne_nil_of_right_ne_nil _ (List.cons_ne_nil _ _)
    · exact h.nonempty key block hmem

theorem RootBuilder.WellFormed.removeFile {builder : RootBuilder} (h : builder.WellFormed)
    (fdid : UInt32) : (builder.removeFile fdid).1.WellFormed where
  flags key block hmem := by
    obtain ⟨hmem, -⟩ := Dict.mem_entries_retain.mp hmem
    obtain ⟨before, hbefore, rfl⟩ := Dict.mem_entries_mapValues.mp hmem
    exact h.flags key before hbefore
  nonempty key block hmem := by
    obtain ⟨-, hne⟩ := Dict.mem_entries_retain.mp hmem
    simpa using hne

theorem RootBuilder.WellFormed.removeFileFromBlock {builder : RootBuilder}
    (h : builder.WellFormed) (fdid : UInt32) (locale : UInt32) (content : UInt64) :
    (builder.removeFileFromBlock fdid locale content).1.WellFormed := by
  unfold RootBuilder.removeFileFromBlock
  cases hblock : builder.blocks.get? (locale, content) with
  | none => exact h
  | some block =>
    dsimp only
    split_ifs with hempty
    · -- the block is gone
      have hmem : ∀ e ∈ (builder.blocks.erase (locale, content)).entries,
          e ∈ builder.blocks.entries := fun e he => (List.mem_filter.mp he).1
      exact ⟨fun key block he => h.flags key block (hmem _ he),
        fun key block he => h.nonempty key block (hmem _ he)⟩
    · constructor
      · intro key block' hmem
        obtain ⟨rfl, rfl⟩ | ⟨-, hmem⟩ := Dict.mem_entries_insert.mp hmem
        · exact h.flags _ block (Dict.get?_eq_some_iff.mp hblock)
        · exact h.flags key block' hmem
      · intro key block' hmem
        obtain ⟨rfl, rfl⟩ | ⟨-, hmem⟩ := Dict.mem_entries_insert.mp hmem
        · simpa using hempty
        · exact h.nonempty key block' hmem

/-- **Every operation keeps the blocks well formed.** -/
theorem RootBuilder.WellFormed.apply {builder : RootBuilder} (h : builder.WellFormed)
    (op : BuilderOp) : (builder.apply op).WellFormed := by
  cases op with
  | addRecord record locale content => exact h.addRecord record locale content
  | removeFile fdid => exact h.removeFile fdid
  | removeFileFromBlock fdid locale content => exact h.removeFileFromBlock fdid locale content
  | updateFile fdid newKey =>
    exact h.mapValues (f := fun block =>
      { block with records := block.records.map (RootRecord.update fdid newKey) })
      (fun _ => rfl) fun block hne => by simpa using hne
  | setVersion version => exact ⟨h.flags, h.nonempty⟩
  | clear => exact ⟨nofun, nofun⟩
  | optimizeBlocks => exact h.mapValues (fun _ => rfl) fun _ => RootBlock.sortRecords_ne_nil

theorem RootBuilder.Reachable.wellFormed {builder : RootBuilder} (h : builder.Reachable) :
    builder.WellFormed := by
  obtain ⟨version, ops, rfl⟩ := h
  induction ops using List.reverseRecOn with
  | nil => exact RootBuilder.wellFormed_new version
  | append_singleton ops op ih =>
    rw [List.foldl_append]
    exact ih.apply op

/-! ### What is built -/

/-- The blocks as they are written. -/
def RootBuilder.sortedBlocks (builder : RootBuilder) : List RootBlock :=
  (sortBy blockRank builder.optimizeBlocks.blocks.entries).map Prod.snd

/-- The blocks as they are kept. -/
def RootBuilder.keptBlocks (builder : RootBuilder) : List RootBlock :=
  builder.blocks.entries.map Prod.snd

/-- The header that is written. -/
def RootBuilder.header (builder : RootBuilder) : Option RootHeader :=
  builtHeader builder.version (totalFiles builder.keptBlocks) (namedFiles builder.keptBlocks)

/-- The file that the bytes are meant for: what the version has no room for is lost. -/
def RootBuilder.file (builder : RootBuilder) : RootFile :=
  let blocks := builder.sortedBlocks.map (RootBlock.stored builder.version)
  ⟨builder.version, builder.header, blocks, buildLookups blocks⟩

/-- A sum of numbers does not depend on their order. -/
theorem foldl_add_eq_of_perm {numbers numbers' : List UInt32} (h : numbers.Perm numbers') :
    numbers.foldl (· + ·) 0 = numbers'.foldl (· + ·) 0 :=
  h.foldl_eq' (fun _ _ _ _ _ => by grind) 0

/-- The number of named records does not depend on how they are sorted. -/
theorem countP_sortRecords (p : RootRecord → Bool) (block : RootBlock) :
    block.sortRecords.records.countP p = block.records.countP p :=
  perm_sortBy.countP_eq p

theorem nodup_blockRank (builder : RootBuilder) :
    (builder.blocks.entries.map blockRank).Nodup := by
  have hrank : builder.blocks.entries.map blockRank =
      (builder.blocks.entries.map Prod.fst).map fun key => toLex (key.1.toNat, key.2.toNat) := by
    rw [List.map_map]
    rfl
  rw [hrank]
  refine builder.blocks.nodup.map fun key key' h => ?_
  obtain ⟨hlocale, hcontent⟩ := Prod.mk.inj (toLex.injective h)
  exact Prod.ext (UInt32.toNat_inj.mp hlocale) (UInt64.toNat_inj.mp hcontent)

/-- **What is built does not depend on the order in which the blocks are visited.** -/
theorem build_eq_ok_iff {builder builder' : RootBuilder} {order : BlockOrder} {bytes : List UInt8} :
    builder.build order = .ok (bytes, builder') ↔ builder.blocks.entries ≠ [] ∧
      bytes = (builder.header.map writeHeader).getD [] ++
        builder.sortedBlocks.flatMap (writeBlock builder.version) ∧
      builder' = builder.optimizeBlocks := by
  have hperm := order.perm builder.optimizeBlocks.blocks.entries
  -- the counts are those of the blocks as they are kept
  have hkept : builder.optimizeBlocks.blocks.entries.map Prod.snd =
      builder.keptBlocks.map RootBlock.sortRecords := by
    simp [RootBuilder.optimizeBlocks, Dict.mapValues, RootBuilder.keptBlocks, Function.comp_def]
  have hvisited : ((order.arrange builder.optimizeBlocks.blocks.entries).map Prod.snd).Perm
      (builder.keptBlocks.map RootBlock.sortRecords) := hkept ▸ hperm.map _
  have htotal : totalFiles ((order.arrange builder.optimizeBlocks.blocks.entries).map Prod.snd) =
      totalFiles builder.keptBlocks := by
    rw [totalFiles, foldl_add_eq_of_perm (hvisited.map _), List.map_map]
    rfl
  have hnamed : namedFiles ((order.arrange builder.optimizeBlocks.blocks.entries).map Prod.snd) =
      namedFiles builder.keptBlocks := by
    rw [namedFiles, foldl_add_eq_of_perm (hvisited.map _), List.map_map, namedFiles]
    refine congrArg (List.foldl (· + ·) 0) (List.map_congr_left fun block _ => ?_)
    exact congrArg UInt32.ofNat (countP_sortRecords _ block)
  have hsorted : sortBy blockRank (order.arrange builder.optimizeBlocks.blocks.entries) =
      sortBy blockRank builder.optimizeBlocks.blocks.entries :=
    (sortBy_eq_of_perm hperm.symm (nodup_blockRank _)).symm
  unfold RootBuilder.build
  split_ifs with hempty
  · simp [hempty]
  · dsimp only
    rw [htotal, hnamed, hsorted, Except.ok.injEq, Prod.mk.injEq, RootBuilder.sortedBlocks,
      List.flatMap_map]
    simp only [ne_eq, hempty, not_false_eq_true, true_and, RootBuilder.header, eq_comm]

/-! ### The header comes back -/

@[simp] theorem fromBytes_toBytes (magic : RootMagic) :
    RootMagic.fromBytes magic.toBytes = some magic := by
  cases magic <;> decide

theorem length_toBytes (magic : RootMagic) : magic.toBytes.length = 4 := by
  cases magic <;> decide

theorem reads_number (magic : RootMagic) (n : UInt32) :
    Reads (value RootError.io magic.number) (magic.number.encode n) n := reads_value _ _ n

/-- Behind a magic two numbers are looked at. -/
theorem reads_detect (magic : RootMagic) (value1 value2 : UInt32) :
    Reads detect (magic.toBytes ++ (magic.number.encode value1 ++ magic.number.encode value2))
      (detectVersion value1 value2) := by
  refine (reads_exactly RootError.io (length_toBytes magic)).bind ?_
  rw [fromBytes_toBytes]
  exact (reads_number magic value1).bind ((reads_number magic value2).bind_nil (reads_pure _))

theorem hasHeader_detectVersion (value1 value2 : UInt32) :
    (detectVersion value1 value2).hasHeader = true := by
  unfold detectVersion
  split_ifs <;> rfl

/-- The two numbers behind the magic. -/
def RootHeader.leading : RootHeader → UInt32 × UInt32
  | .v2 _ info => (info.totalFiles, info.namedFiles)
  | .v3v4 _ headerSize version _ _ => (headerSize, version)

/-- **A header that looks like what it is.** -/
def RootHeader.Recognized : RootHeader → Prop
  | .v2 _ info => ¬isExtendedHeader info.totalFiles info.namedFiles
  | .v3v4 _ headerSize version _ _ => isExtendedHeader headerSize version

theorem magic_of_toBytes (magic : RootMagic) :
    (if magic.toBytes = RootMagic.tsfm.toBytes then RootMagic.tsfm else .mfst) = magic := by
  cases magic <;> decide

theorem reads_readHeader {header : RootHeader} (h : header.Recognized) :
    Reads readHeader (writeHeader header) header := by
  cases header with
  | v2 magic info =>
    refine (reads_exactly RootError.io (length_toBytes magic)).bind ?_
    rw [magic_of_toBytes]
    refine (reads_number magic info.totalFiles).bind ((reads_number magic _).bind_nil ?_)
    have hclassic : ¬isExtendedHeader info.totalFiles info.namedFiles := h
    rw [if_neg hclassic]
    exact reads_pure _
  | v3v4 magic headerSize version info padding =>
    refine (reads_exactly RootError.io (length_toBytes magic)).bind ?_
    rw [magic_of_toBytes]
    refine (reads_number magic headerSize).bind ((reads_number magic version).bind ?_)
    have hextended : isExtendedHeader headerSize version := h
    rw [if_pos hextended]
    refine Reads.bind ?_ ((reads_number magic padding).bind_nil (reads_pure _))
    exact (reads_number magic _).bind ((reads_number magic _).bind_nil (reads_pure _))

/-- A header that has the numbers of an extended one is read as such. -/
theorem recognized_of_readHeader {header : RootHeader} {body rest : List UInt8}
    (h : readHeader (writeHeader header ++ body) = .ok (header, rest)) : header.Recognized := by
  cases header with
  | v2 magic info =>
    intro (hextended : isExtendedHeader info.totalFiles info.namedFiles)
    obtain ⟨magicBytes, input₁, hmagic, h⟩ := bind_eq_ok_iff.mp h
    rw [writeHeader, writeHeaderInfo, List.append_assoc, List.append_assoc,
      reads_exactly RootError.io (length_toBytes magic) _] at hmagic
    obtain ⟨rfl, rfl⟩ := Prod.mk.inj (Except.ok.inj hmagic)
    rw [magic_of_toBytes, bind_of_eq_ok (reads_number magic info.totalFiles _),
      bind_of_eq_ok (reads_number magic info.namedFiles _), if_pos hextended] at h
    obtain ⟨_, _, -, h⟩ := bind_eq_ok_iff.mp h
    obtain ⟨_, _, -, h⟩ := bind_eq_ok_iff.mp h
    exact nomatch (pure_eq_ok_iff.mp h).1
  | v3v4 magic headerSize version info padding =>
    obtain ⟨magicBytes, input₁, -, h⟩ := bind_eq_ok_iff.mp h
    generalize (if magicBytes = RootMagic.tsfm.toBytes then RootMagic.tsfm else .mfst) = found at h
    obtain ⟨value1, input₂, -, h⟩ := bind_eq_ok_iff.mp h
    obtain ⟨value2, input₃, -, h⟩ := bind_eq_ok_iff.mp h
    split_ifs at h with hextended
    · obtain ⟨_, _, -, h⟩ := bind_eq_ok_iff.mp h
      obtain ⟨_, _, -, h⟩ := bind_eq_ok_iff.mp h
      obtain ⟨hheader, -⟩ := pure_eq_ok_iff.mp h
      cases hheader
      exact hextended
    · exact nomatch (pure_eq_ok_iff.mp h).1

theorem detect_writeHeader (header : RootHeader) (body : List UInt8) : ∃ later,
    detect (writeHeader header ++ body) =
      .ok (detectVersion header.leading.1 header.leading.2, later) := by
  cases header with
  | v2 magic info =>
    have hdetect := reads_detect magic info.totalFiles info.namedFiles body
    exact ⟨body, by simpa [writeHeader, writeHeaderInfo, RootHeader.leading] using hdetect⟩
  | v3v4 magic headerSize version info padding =>
    have hdetect := reads_detect magic headerSize version
      (writeHeaderInfo magic info ++ magic.number.encode padding ++ body)
    exact ⟨_, by simpa [writeHeader, RootHeader.leading] using hdetect⟩

/-- **A header that is recognized is found again**, with what stands behind it. -/
theorem readFront_writeHeader {header : RootHeader} (h : header.Recognized) (body : List UInt8) :
    readFront (writeHeader header ++ body) = .ok (header.version, some header, body) := by
  obtain ⟨later, hdetect⟩ := detect_writeHeader header body
  refine readFront_eq_ok_iff.mpr ⟨_, later, hdetect, ?_⟩
  rw [if_pos (hasHeader_detectVersion _ _)]
  exact ⟨header, reads_readHeader h body, rfl, rfl⟩

theorem recognized_of_readFront {header : RootHeader} {body rest : List UInt8}
    {version : RootVersion}
    (h : readFront (writeHeader header ++ body) = .ok (version, some header, rest)) :
    header.Recognized := by
  obtain ⟨detected, later, -, h⟩ := readFront_eq_ok_iff.mp h
  split_ifs at h
  · obtain ⟨found, hread, -, hfound⟩ := h
    obtain rfl := Option.some.inj hfound
    exact recognized_of_readHeader hread
  · exact nomatch h.2.1

/-- Blocks that are not too large do not begin with a magic. -/
theorem readFront_of_readable {blocks : List RootBlock} (hne : blocks ≠ [])
    (hreadable : ∀ block ∈ blocks, block.Readable) :
    readFront (blocks.flatMap (writeBlock .v1)) =
      .ok (.v1, none, blocks.flatMap (writeBlock .v1)) := by
  obtain ⟨block, blocks, rfl⟩ := List.exists_cons_of_ne_nil hne
  have hblock := hreadable block List.mem_cons_self
  -- the first four bytes are the number of the records
  have hmagic : RootMagic.fromBytes (uint32.encode block.header.numRecords) = none := by
    have hnum : block.header.numRecords.toNat ≤ 1000000 := hblock.counted ▸ hblock.small
    rw [RootMagic.fromBytes, List.find?_eq_none]
    intro magic _ htrue
    have hdecode := congrArg uint32.decode (of_decide_eq_true htrue)
    rw [uint32.decode_encode] at hdecode
    rw [← hdecode] at hnum
    cases magic <;> exact absurd hnum (by decide)
  obtain ⟨later, hbytes⟩ : ∃ later, (block :: blocks).flatMap (writeBlock .v1) =
      uint32.encode block.header.numRecords ++ later := by
    rw [List.flatMap_cons, writeBlock, headerV1Layout, encode_prod, List.append_assoc,
      List.append_assoc]
    exact ⟨_, rfl⟩
  have hdetect : detect ((block :: blocks).flatMap (writeBlock .v1)) = .ok (.v1, later) := by
    have hfour : (uint32.encode block.header.numRecords).length = 4 := uint32.length_encode _
    rw [hbytes, detect, bind_of_eq_ok (reads_exactly RootError.io hfour later), hmagic]
    rfl
  refine readFront_eq_ok_iff.mpr ⟨.v1, later, hdetect, ?_⟩
  rw [if_neg (by decide)]
  exact ⟨rfl, rfl, rfl⟩

/-! ### What is built is read back -/

/-- **A builder that is built faithfully**: the headers of its blocks announce their records,
and its own header is taken for what it is. -/
structure RootBuilder.Faithful (builder : RootBuilder) : Prop where
  readable : ∀ block ∈ builder.keptBlocks, block.Readable
  recognized : ∀ header, builder.header = some header → header.Recognized

/-- What is written is kept, in another order. -/
theorem perm_sortedBlocks (builder : RootBuilder) :
    builder.sortedBlocks.Perm (builder.keptBlocks.map RootBlock.sortRecords) := by
  have hkept : builder.optimizeBlocks.blocks.entries.map Prod.snd =
      builder.keptBlocks.map RootBlock.sortRecords := by
    simp [RootBuilder.optimizeBlocks, Dict.mapValues, RootBuilder.keptBlocks, Function.comp_def]
  exact hkept ▸ perm_sortBy.map _

theorem readable_iff_of_length {block block' : RootBlock}
    (hheader : block.header.numRecords = block'.header.numRecords)
    (hlength : block.records.length = block'.records.length) :
    block.Readable ↔ block'.Readable :=
  ⟨fun h => ⟨hheader ▸ hlength ▸ h.counted, hlength ▸ h.small⟩,
    fun h => ⟨hheader ▸ hlength ▸ h.counted, hlength ▸ h.small⟩⟩

theorem readable_sortRecords_iff {block : RootBlock} :
    block.sortRecords.Readable ↔ block.Readable :=
  readable_iff_of_length rfl perm_sortBy.length_eq

theorem readable_stored_iff {version : RootVersion} {block : RootBlock} :
    (block.stored version).Readable ↔ block.Readable :=
  readable_iff_of_length rfl (List.length_map _)

theorem forall_sortedBlocks_iff {builder : RootBuilder} :
    (∀ block ∈ builder.sortedBlocks, block.Readable) ↔
      ∀ block ∈ builder.keptBlocks, block.Readable := by
  simp only [(perm_sortedBlocks builder).mem_iff, List.forall_mem_map, readable_sortRecords_iff]

theorem RootBuilder.WellFormed.ne_nil_of_mem {builder : RootBuilder} (h : builder.WellFormed)
    {block : RootBlock} (hmem : block ∈ builder.sortedBlocks) : block.records ≠ [] := by
  rw [(perm_sortedBlocks builder).mem_iff] at hmem
  obtain ⟨before, hbefore, rfl⟩ := List.mem_map.mp hmem
  obtain ⟨⟨key, before⟩, hentry, rfl⟩ := List.mem_map.mp hbefore
  exact RootBlock.sortRecords_ne_nil (h.nonempty key before hentry)

/-- Blocks that were read with records announce them. -/
theorem readable_of_readBlocks {version : RootVersion} {blocks : List RootBlock}
    {input : List UInt8} (h : readBlocks version [] input = .ok blocks) {block : RootBlock}
    (hmem : block ∈ blocks) (hne : block.records ≠ []) : block.Readable := by
  obtain ⟨read, tail, hrun, -, rfl, -⟩ := readBlocks_eq_ok_iff.mp h
  have hread : ∀ block ∈ read, block.records ≠ [] → block.Readable :=
    hrun.forall_mem fun _ _ _ hblock => readable_of_readBlock hblock
  exact hread block (List.mem_filter.mp hmem).1 hne

theorem version_builtHeader {version : RootVersion} {totalFiles namedFiles : UInt32}
    {header : RootHeader} (h : builtHeader version totalFiles namedFiles = some header) :
    header.version = version := by
  cases version <;> cases h <;> rfl

/-- **What is built is read back exactly if the builder is faithful**: whatever operations led
to it, and in whatever order its blocks are visited. -/
theorem parse_build_iff_faithful {builder builder' : RootBuilder} (hreach : builder.Reachable)
    {order : BlockOrder} {bytes : List UInt8} (h : builder.build order = .ok (bytes, builder')) :
    parse bytes = .ok builder.file ↔ builder.Faithful := by
  obtain ⟨hne, rfl, -⟩ := build_eq_ok_iff.mp h
  have hwf := hreach.wellFormed
  rw [parse_eq_ok_iff]
  constructor
  · rintro ⟨body, hfront, hblocks, -⟩
    constructor
    · refine forall_sortedBlocks_iff.mp fun block hmem => ?_
      have hstored := readable_of_readBlocks hblocks
        (List.mem_map_of_mem (f := RootBlock.stored builder.version) hmem)
        (by simpa [RootBlock.stored] using hwf.ne_nil_of_mem hmem)
      exact readable_stored_iff.mp hstored
    · intro header hheader
      have hsome : builder.file.header = some header := hheader
      rw [hheader, hsome, Option.map_some, Option.getD_some] at hfront
      exact recognized_of_readFront hfront
  · intro hfaithful
    have hreadable := forall_sortedBlocks_iff.mpr hfaithful.readable
    have hblocks : readBlocks builder.version [] _ = _ :=
      readBlocks_flatMap hreadable fun _ => hwf.ne_nil_of_mem
    refine ⟨builder.sortedBlocks.flatMap (writeBlock builder.version), ?_, hblocks, rfl⟩
    cases hheader : builder.header with
    | some header =>
      have hversion : header.version = builder.version := version_builtHeader hheader
      have hfront := readFront_writeHeader (hfaithful.recognized header hheader)
        (builder.sortedBlocks.flatMap (writeBlock builder.version))
      rw [hversion] at hfront
      change _ = Except.ok (builder.version, builder.header, _)
      rw [hheader]
      exact hfront
    | none =>
      have hversion : builder.version = .v1 := by
        unfold RootBuilder.header builtHeader at hheader
        split at hheader <;> first | assumption | cases hheader
      have hsorted : builder.sortedBlocks ≠ [] := by
        rw [← List.length_pos_iff, (perm_sortedBlocks builder).length_eq, List.length_map,
          RootBuilder.keptBlocks, List.length_map]
        exact List.length_pos_iff.mpr hne
      have hfront := readFront_of_readable hsorted hreadable
      rw [← hversion] at hfront
      change _ = Except.ok (builder.version, builder.header, _)
      rw [hheader]
      exact hfront

/-- **A builder with any record is built, into the same bytes in whatever order its blocks are
visited**, and they are read back exactly if it is faithful. -/
theorem build_of_reachable {builder : RootBuilder} (hreach : builder.Reachable)
    (hne : builder.blocks.entries ≠ []) :
    ∃ bytes, (∀ order, builder.build order = .ok (bytes, builder.optimizeBlocks)) ∧
      (parse bytes = .ok builder.file ↔ builder.Faithful) := by
  have hbuild : ∀ order, builder.build order = .ok (_, builder.optimizeBlocks) := fun order =>
    build_eq_ok_iff.mpr ⟨hne, rfl, rfl⟩
  exact ⟨_, hbuild, parse_build_iff_faithful hreach (hbuild (.standing _))⟩

/-- A builder with one record. -/
def sampleRootBuilder : RootBuilder :=
  (RootBuilder.new .v1).addRecord ⟨1, Key.constant 0x11, none⟩ 2 0

theorem reachable_sampleRootBuilder : sampleRootBuilder.Reachable :=
  ⟨.v1, [.addRecord ⟨1, Key.constant 0x11, none⟩ 2 0], rfl⟩

theorem faithful_sampleRootBuilder : sampleRootBuilder.Faithful where
  readable block hmem := by
    obtain rfl := List.mem_singleton.mp hmem
    exact ⟨rfl, by decide⟩
  recognized _ hheader := nomatch hheader

theorem exists_build_sampleRootBuilder :
    ∃ bytes builder', sampleRootBuilder.build (.standing _) = .ok (bytes, builder') :=
  ⟨_, _, build_eq_ok_iff.mpr ⟨by decide, rfl, rfl⟩⟩

/-- A builder with three records in two blocks, added in another order than they are written. -/
def variedRootBuilder : RootBuilder :=
  (((RootBuilder.new .v1).addRecord ⟨3, Key.constant 0x33, none⟩ 4 0).addRecord
    ⟨5, Key.constant 0x11, some 7⟩ 2 0).addRecord ⟨1, Key.constant 0x22, none⟩ 2 0

theorem faithful_variedRootBuilder : variedRootBuilder.Faithful where
  readable block hmem := by
    rcases List.mem_pair.mp hmem with rfl | rfl
    · exact ⟨rfl, by decide⟩
    · exact ⟨rfl, by decide⟩
  recognized _ hheader := nomatch hheader

theorem build_of_reachable_sample :
    ∃ bytes,
      (∀ order, variedRootBuilder.build order = .ok (bytes, variedRootBuilder.optimizeBlocks)) ∧
        parse bytes = .ok variedRootBuilder.file ∧
        variedRootBuilder.file.blocks.map (fun block => block.records.map fun record =>
          (record.fileDataId, record.nameHash)) = [[(1, some 0), (5, some 7)], [(3, some 0)]] := by
  have hreach : variedRootBuilder.Reachable :=
    ⟨.v1, [.addRecord ⟨3, Key.constant 0x33, none⟩ 4 0,
      .addRecord ⟨5, Key.constant 0x11, some 7⟩ 2 0,
      .addRecord ⟨1, Key.constant 0x22, none⟩ 2 0], rfl⟩
  obtain ⟨bytes, hbuild, hparse⟩ := build_of_reachable hreach (by decide)
  exact ⟨bytes, hbuild, hparse.mpr faithful_variedRootBuilder, by decide +kernel⟩

/-! ### Removing files -/

theorem RootBuilder.Reachable.apply {builder : RootBuilder} (h : builder.Reachable)
    (op : BuilderOp) : (builder.apply op).Reachable := by
  obtain ⟨version, ops, rfl⟩ := h
  exact ⟨version, ops ++ [op], by rw [List.foldl_append]; rfl⟩

/-- A block keeps announcing what was taken out of it. -/
theorem readable_without_iff {block : RootBlock} (h : block.Readable) {fdid : UInt32} :
    (block.without fdid).Readable ↔ ∀ record ∈ block.records, record.fileDataId ≠ fdid := by
  constructor
  · rintro ⟨hcounted, -⟩ record hmem
    have hlength : (block.records.filter fun record => record.fileDataId ≠ fdid).length =
        block.records.length := hcounted.symm.trans h.counted
    simpa using List.length_filter_eq_length_iff.mp hlength record hmem
  · intro hall
    have hsame : block.without fdid = block := by
      rw [RootBlock.without, List.filter_eq_self.mpr fun record hmem => by
        simpa using hall record hmem]
    rwa [hsame]

theorem mem_keptBlocks_removeFile {builder : RootBuilder} {fdid : UInt32} {block : RootBlock} :
    block ∈ (builder.removeFile fdid).1.keptBlocks ↔
      ∃ before ∈ builder.keptBlocks, before.without fdid = block ∧ block.records ≠ [] := by
  simp only [RootBuilder.keptBlocks, List.mem_map, Prod.exists, exists_eq_right]
  constructor
  · rintro ⟨locale, content, hmem⟩
    obtain ⟨hmem, hne⟩ := Dict.mem_entries_retain.mp hmem
    obtain ⟨before, hbefore, rfl⟩ := Dict.mem_entries_mapValues.mp hmem
    exact ⟨before, ⟨locale, content, hbefore⟩, rfl, by simpa using hne⟩
  · rintro ⟨before, ⟨locale, content, hbefore⟩, rfl, hne⟩
    refine ⟨locale, content, Dict.mem_entries_retain.mpr ⟨?_, by simpa using hne⟩⟩
    exact Dict.mem_entries_mapValues.mpr ⟨before, hbefore, rfl⟩

/-- **Behind a removal the file that is built is read back exactly if every block that had the
file had no other**: the rest of a block is still announced with the number it had before. -/
theorem parse_build_removeFile_iff {builder builder' : RootBuilder} (hreach : builder.Reachable)
    (hreadable : ∀ block ∈ builder.keptBlocks, block.Readable) {fdid : UInt32}
    (hrecognized : ∀ header, (builder.removeFile fdid).1.header = some header → header.Recognized)
    {order : BlockOrder} {bytes : List UInt8}
    (h : (builder.removeFile fdid).1.build order = .ok (bytes, builder')) :
    parse bytes = .ok (builder.removeFile fdid).1.file ↔ ∀ block ∈ builder.keptBlocks,
      (∃ record ∈ block.records, record.fileDataId = fdid) →
        ∀ record ∈ block.records, record.fileDataId = fdid := by
  refine (parse_build_iff_faithful (hreach.apply (.removeFile fdid)) h).trans ?_
  constructor
  · rintro ⟨hkept, -⟩ block hmem ⟨found, hfound, rfl⟩ record hrecord
    -- if another record stayed, the block would have been kept without the file
    by_contra hother
    have hne : (block.without found.fileDataId).records ≠ [] :=
      List.ne_nil_of_mem (List.mem_filter.mpr ⟨hrecord, by simpa using hother⟩)
    have hshort := hkept _ (mem_keptBlocks_removeFile.mpr ⟨block, hmem, rfl, hne⟩)
    exact (readable_without_iff (hreadable block hmem)).mp hshort found hfound rfl
  · intro halone
    refine ⟨fun block hmem => ?_, hrecognized⟩
    obtain ⟨before, hbefore, rfl, hne⟩ := mem_keptBlocks_removeFile.mp hmem
    rw [readable_without_iff (hreadable before hbefore)]
    intro record hrecord hfdid
    obtain ⟨other, hother⟩ := List.exists_mem_of_ne_nil _ hne
    obtain ⟨hother, hne⟩ := List.mem_filter.mp hother
    exact (of_decide_eq_true hne) (halone before hbefore ⟨record, hrecord, hfdid⟩ other hother)

/-- A builder with two records in one block. -/
def pairedRootBuilder : RootBuilder := sampleRootBuilder.addRecord ⟨5, Key.constant 0x11, none⟩ 2 0

theorem parse_build_removeFile_sample : ∃ bytes builder',
    (pairedRootBuilder.removeFile 5).1.build (.standing _) = .ok (bytes, builder') ∧
      parse bytes ≠ .ok (pairedRootBuilder.removeFile 5).1.file := by
  have hbuild : (pairedRootBuilder.removeFile 5).1.build (.standing _) = .ok (_, _) :=
    build_eq_ok_iff.mpr ⟨by decide, rfl, rfl⟩
  refine ⟨_, _, hbuild, fun hparse => ?_⟩
  have halone := (parse_build_removeFile_iff (reachable_sampleRootBuilder.apply
    (.addRecord ⟨5, Key.constant 0x11, none⟩ 2 0)) (fun block hmem => by
      obtain rfl := List.mem_singleton.mp hmem
      exact ⟨rfl, by decide⟩) (fun _ hheader => nomatch hheader) hbuild).mp hparse
  exact absurd halone (by decide)

/-! ### Whose content a file has -/

/-- What a record says. -/
def RootRecord.pair (record : RootRecord) : UInt32 × Key := (record.fileDataId, record.contentKey)

/-- Sorting the records of a block does not change which one is the last for a file. -/
theorem isLast_sortRecords {block : RootBlock} {fdid : UInt32} {key : Key} :
    IsLast (block.sortRecords.records.map RootRecord.pair) fdid key ↔
      IsLast (block.records.map RootRecord.pair) fdid key := by
  have hrank : ∀ record : RootRecord, decide ((RootRecord.pair record).1 = fdid) =
      decide (recordRank record = fdid.toNat) := fun record =>
    decide_eq_decide.mpr UInt32.toNat_inj.symm
  simp only [isLast_iff_getLast?_filter, List.filter_map, Function.comp_def, hrank,
    RootBlock.sortRecords, filter_sortBy_eq]

/-- The records that the client sees in a built file. -/
theorem clientRecords_file (builder : RootBuilder) :
    clientRecords builder.file.view =
      ((sortBy blockRank builder.optimizeBlocks.blocks.entries).filter fun e =>
        e.2.header.localeFlags &&& clientLocale != 0).flatMap fun e =>
          e.2.records.map RootRecord.pair := by
  have hall : ∀ flags : UInt64, (flags &&& 0 == 0) = true := fun flags => by simp
  simp only [clientRecords_view, recordsFor, RootBuilder.file, RootBuilder.sortedBlocks,
    List.filter_map, List.flatMap_map, List.map_flatMap, Function.comp_def, hall, Bool.and_true,
    RootBlock.stored, List.map_map, RootRecord.stored]
  rfl

/-- **The content of a file is that of the last record for it, in the greatest block of the
client's locale that has one**: greatest by locale flags and then content flags, whatever order
the records were added in across blocks. -/
theorem isLast_clientRecords_file {builder : RootBuilder} (hwf : builder.WellFormed)
    {fdid : UInt32} {key : Key} :
    IsLast (clientRecords builder.file.view) fdid key ↔
      ∃ locale content block, builder.blocks.get? (locale, content) = some block ∧
        locale &&& clientLocale ≠ 0 ∧ IsLast (block.records.map RootRecord.pair) fdid key ∧
        ∀ locale' content' block', builder.blocks.get? (locale', content') = some block' →
          locale' &&& clientLocale ≠ 0 →
          (locale < locale' ∨ locale = locale' ∧ content < content') →
          ∀ record ∈ block'.records, record.fileDataId ≠ fdid := by
  have hmem : ∀ key block,
      (key, block) ∈ (sortBy blockRank builder.optimizeBlocks.blocks.entries).filter
          (fun e => e.2.header.localeFlags &&& clientLocale != 0) ↔
        key.1 &&& clientLocale ≠ 0 ∧
          ∃ before, builder.blocks.get? key = some before ∧ before.sortRecords = block := by
    intro key block
    rw [List.mem_filter, mem_sortBy, RootBuilder.optimizeBlocks, Dict.mem_entries_mapValues]
    constructor
    · rintro ⟨⟨before, hbefore, rfl⟩, hlocale⟩
      obtain ⟨hflags, -⟩ := hwf.flags key before hbefore
      refine ⟨?_, before, Dict.get?_eq_some_iff.mpr hbefore, rfl⟩
      simpa [RootBlock.sortRecords, hflags] using hlocale
    · rintro ⟨hlocale, before, hbefore, rfl⟩
      have hentry := Dict.get?_eq_some_iff.mp hbefore
      obtain ⟨hflags, -⟩ := hwf.flags key before hentry
      refine ⟨⟨before, hentry, rfl⟩, ?_⟩
      simpa [RootBlock.sortRecords, hflags] using hlocale
  have hsorted := (pairwise_lt_sortBy (nodup_blockRank builder.optimizeBlocks)).filter
    fun e => e.2.header.localeFlags &&& clientLocale != 0
  have hrank : ∀ (key key' : UInt32 × UInt64) (block block' : RootBlock),
      blockRank (key, block) < blockRank (key', block') ↔
        key.1 < key'.1 ∨ key.1 = key'.1 ∧ key.2 < key'.2 := fun key key' block block' => by
    rw [blockRank, blockRank, Prod.Lex.toLex_lt_toLex, UInt32.toNat_inj, UInt32.lt_iff_toNat_lt,
      UInt64.lt_iff_toNat_lt]
  rw [clientRecords_file, isLast_flatMap_of_pairwise hsorted]
  constructor
  · rintro ⟨⟨⟨locale, content⟩, sorted⟩, hblock, hlast, hgreater⟩
    obtain ⟨hlocale, block, hget, rfl⟩ := (hmem _ _).mp hblock
    refine ⟨locale, content, block, hget, hlocale, isLast_sortRecords.mp hlast, ?_⟩
    intro locale' content' block' hget' hlocale' hlt record hrecord
    have hblock' := (hmem (locale', content') _).mpr ⟨hlocale', block', hget', rfl⟩
    refine hgreater _ hblock' ((hrank _ _ _ _).mpr hlt) _ (List.mem_map_of_mem ?_)
    exact mem_sortBy.mpr hrecord
  · rintro ⟨locale, content, block, hget, hlocale, hlast, hgreater⟩
    refine ⟨((locale, content), block.sortRecords), (hmem _ _).mpr ⟨hlocale, block, hget, rfl⟩,
      isLast_sortRecords.mpr hlast, ?_⟩
    rintro ⟨⟨locale', content'⟩, sorted⟩ hblock' hlt p hp
    obtain ⟨hlocale', block', hget', rfl⟩ := (hmem _ _).mp hblock'
    obtain ⟨record, hrecord, rfl⟩ := List.mem_map.mp hp
    exact hgreater locale' content' block' hget' hlocale' ((hrank _ _ _ _).mp hlt) record
      (mem_sortBy.mp hrecord)

end Root

end AssetResolver
