import AssetResolver.Formats.Root

/-!
# Reading a root file

The loop over the blocks, the lookup tables, and what the client makes of both.

The loop takes **any failure behind the first block with records for the end of the file**.
What is accepted is therefore described by a run of blocks and the place where the run can go
on no further (`AssetResolver.Root.readBlocks_eq_ok_iff`), and a file that was cut somewhere is
refused or read as the same file with fewer blocks (`AssetResolver.Root.parse_take`): nothing
tells the two apart.
-/

namespace AssetResolver

namespace Root

open ByteReader LastWins

/-! ### Lookup tables -/

/-- `RootEntry`. -/
structure RootEntry where
  /-- `block_index`. -/
  blockIndex : ℕ
  /-- `content_key`. -/
  contentKey : Key
  /-- `locale_flags`. -/
  localeFlags : UInt32
  /-- `content_flags`. -/
  contentFlags : UInt64
  deriving DecidableEq

/-- `RootEntry::matches`: one of the locales, and all of the content flags. -/
def RootEntry.matches (entry : RootEntry) (locale : UInt32) (content : UInt64) : Bool :=
  (entry.localeFlags &&& locale != 0) && (entry.contentFlags &&& content == content)

/-- `RootLookupTables`. -/
structure RootLookupTables where
  /-- `fdid_map`. -/
  fdidMap : AList fun _ : UInt32 => List RootEntry
  /-- `name_map`. -/
  nameMap : AList fun _ : UInt64 => List RootEntry

/-- `RootLookupTables::add_entry`. -/
def RootLookupTables.addEntry (tables : RootLookupTables) (fdid : UInt32)
    (nameHash : Option UInt64) (entry : RootEntry) : RootLookupTables where
  fdidMap := push tables.fdidMap fdid entry
  nameMap :=
    match nameHash with
    | some hash => push tables.nameMap hash entry
    | none => tables.nameMap

/-- `RootLookupTables::resolve_by_id`. -/
def RootLookupTables.resolveById (tables : RootLookupTables) (fdid : UInt32) (locale : UInt32)
    (content : UInt64) : Option Key :=
  ((tables.fdidMap.lookup fdid).getD []).find? (fun entry => entry.matches locale content)
    |>.map RootEntry.contentKey

/-- `RootLookupTables::resolve_by_hash`. -/
def RootLookupTables.resolveByHash (tables : RootLookupTables) (nameHash : UInt64)
    (locale : UInt32) (content : UInt64) : Option Key :=
  ((tables.nameMap.lookup nameHash).getD []).find? (fun entry => entry.matches locale content)
    |>.map RootEntry.contentKey

/-- `build_lookups`. -/
def buildLookups (blocks : List RootBlock) : RootLookupTables :=
  blocks.zipIdx.foldl
    (fun tables (block, blockIndex) =>
      block.records.foldl
        (fun tables record =>
          tables.addEntry record.fileDataId record.nameHash
            ⟨blockIndex, record.contentKey, block.header.localeFlags, block.header.contentFlags⟩)
        tables)
    ⟨∅, ∅⟩

/-! ### Parsing -/

/-- `RootFile`. -/
structure RootFile where
  /-- `version`. -/
  version : RootVersion
  /-- `header`, which the first version has not. -/
  header : Option RootHeader
  /-- `blocks`. -/
  blocks : List RootBlock
  /-- `lookups`. -/
  lookups : RootLookupTables

/-- A block whose header announces records: the others are passed over. -/
def RootBlock.announces (block : RootBlock) : Bool := 0 < block.header.numRecords

/-- The loop of `RootFile::parse_from_reader`. -/
def readBlocks (version : RootVersion) (blocks : List RootBlock) (input : List UInt8) :
    Except RootError (List RootBlock) :=
  if input = [] then .ok blocks
  else
    match _ : readBlock version input with
    | .ok (block, rest) =>
      readBlocks version (if block.announces then blocks ++ [block] else blocks) rest
    -- behind the first block a failure is taken for the end
    | .error e => if blocks = [] then .error e else .ok blocks
  termination_by input.length
  decreasing_by exact length_lt_of_readBlock ‹_›

/-- What `RootFile::parse_from_reader` reads before the blocks: `detect` goes back to the
beginning, and the header has the last word on the version. -/
def readFront (data : List UInt8) :
    Except RootError (RootVersion × Option RootHeader × List UInt8) := do
  let (detectedVersion, _) ← detect data
  if detectedVersion.hasHeader then do
    let (header, body) ← readHeader data
    return (header.version, some header, body)
  else return (detectedVersion, none, data)

/-- `RootFile::parse`. -/
def parse (data : List UInt8) : Except RootError RootFile := do
  let (version, header, body) ← readFront data
  let blocks ← readBlocks version [] body
  return ⟨version, header, blocks, buildLookups blocks⟩

/-- `RootFile::resolve_by_id`. -/
def RootFile.resolveById (file : RootFile) (fdid : UInt32) (locale : UInt32) (content : UInt64) :
    Option Key :=
  file.lookups.resolveById fdid locale content

/-- `RootFile::resolve_by_hash`. -/
def RootFile.resolveByHash (file : RootFile) (nameHash : UInt64) (locale : UInt32)
    (content : UInt64) : Option Key :=
  file.lookups.resolveByHash nameHash locale content

/-! ### What is accepted -/

theorem stuck_readBlock_nil (version : RootVersion) : Stuck (readBlock version) [] :=
  fun _ h => absurd (length_lt_of_readBlock h) (Nat.not_lt_zero _)

/-- **The loop reads the longest run of blocks**, and accepts it if nothing is left or some
block was kept. -/
theorem readBlocks_eq_ok_iff {version : RootVersion} {before blocks : List RootBlock}
    {input : List UInt8} :
    readBlocks version before input = .ok blocks ↔
      ∃ read tail, Run (readBlock version) input read tail ∧ Stuck (readBlock version) tail ∧
        blocks = before ++ read.filter RootBlock.announces ∧ (tail = [] ∨ blocks ≠ []) := by
  fun_induction readBlocks version before input with
  | case1 before =>
    constructor
    · intro h
      refine ⟨[], [], .nil [], stuck_readBlock_nil version, ?_, .inl rfl⟩
      rw [List.filter_nil, List.append_nil, Except.ok.inj h]
    · rintro ⟨read, tail, hrun, -, rfl, -⟩
      cases hrun with
      | nil => simp
      | cons h => exact absurd h (stuck_readBlock_nil version _)
  | case2 before input hne block rest hblock ih =>
    have hkept : ∀ read, (if block.announces then before ++ [block] else before) ++
        read.filter RootBlock.announces = before ++ (block :: read).filter RootBlock.announces := by
      intro read
      rw [List.filter_cons]
      split_ifs <;> simp
    rw [dite_eq_ite] at ih
    rw [ih]
    constructor
    · rintro ⟨read, tail, hrun, hstuck, hblocks, htail⟩
      exact ⟨block :: read, tail, .cons hblock hrun, hstuck, hblocks.trans (hkept read), htail⟩
    · rintro ⟨read, tail, hrun, hstuck, hblocks, htail⟩
      cases hrun with
      | nil => exact absurd hblock (hstuck _)
      | cons h hrun =>
        obtain ⟨rfl, rfl⟩ := Prod.mk.inj (Except.ok.inj (hblock.symm.trans h))
        exact ⟨_, tail, hrun, hstuck, hblocks.trans (hkept _).symm, htail⟩
  | case3 input hne e herror =>
    have hstuck : Stuck (readBlock version) input := stuck_iff.mpr ⟨e, herror⟩
    constructor
    · exact nofun
    · rintro ⟨read, tail, hrun, -, rfl, htail⟩
      cases hrun with
      | nil => simp [hne] at htail
      | cons h => exact absurd h (hstuck _)
  | case4 before input hne e herror hbefore =>
    have hstuck : Stuck (readBlock version) input := stuck_iff.mpr ⟨e, herror⟩
    constructor
    · intro h
      obtain rfl := Except.ok.inj h
      exact ⟨[], input, .nil input, hstuck, by simp, .inr hbefore⟩
    · rintro ⟨read, tail, hrun, -, rfl, -⟩
      cases hrun with
      | nil => simp
      | cons h => exact absurd h (hstuck _)

theorem exact_detect : Exact detect := by
  refine (exact_exactly _ _).bind fun bytes => ?_
  cases RootMagic.fromBytes bytes with
  | none => exact exact_pure _
  | some magic => exact (exact_value _ _).bind fun _ => (exact_value _ _).bind fun _ => exact_pure _

theorem exact_readHeader : Exact readHeader :=
  (exact_exactly _ _).bind fun _ => (exact_value _ _).bind fun _ => (exact_value _ _).bind fun _ =>
    Exact.ite
      (((exact_value _ _).bind fun _ => (exact_value _ _).bind fun _ => exact_pure _).bind fun _ =>
        (exact_value _ _).bind fun _ => exact_pure _)
      (exact_pure _)

theorem parse_eq_ok_iff {data : List UInt8} {file : RootFile} :
    parse data = .ok file ↔ ∃ body, readFront data = .ok (file.version, file.header, body) ∧
      readBlocks file.version [] body = .ok file.blocks ∧
      file.lookups = buildLookups file.blocks := by
  unfold parse
  rw [Program.except_bind_eq_ok_iff]
  constructor
  · rintro ⟨⟨version, header, body⟩, hfront, h⟩
    obtain ⟨blocks, hblocks, h⟩ := Program.except_bind_eq_ok_iff.mp h
    obtain rfl := Except.ok.inj h
    exact ⟨body, hfront, hblocks, rfl⟩
  · rintro ⟨body, hfront, hblocks, hlookups⟩
    refine ⟨_, hfront, Program.except_bind_eq_ok_iff.mpr ⟨file.blocks, hblocks, ?_⟩⟩
    rw [← hlookups]
    rfl

/-- Blocks that announce their records are read one after the other. -/
theorem readBlocks_flatMap {version : RootVersion} {blocks : List RootBlock}
    (hreadable : ∀ block ∈ blocks, block.Readable) (hne : ∀ block ∈ blocks, block.records ≠ []) :
    readBlocks version [] (blocks.flatMap (writeBlock version)) =
      .ok (blocks.map (RootBlock.stored version)) := by
  have hrun := run_of_reads (p := readBlock version)
    (fun block hmem => reads_readBlock version (hreadable block hmem)) []
  rw [List.append_nil] at hrun
  refine readBlocks_eq_ok_iff.mpr ⟨_, [], hrun, stuck_readBlock_nil version, ?_, .inl rfl⟩
  -- none of them is passed over
  rw [List.nil_append, List.filter_eq_self.mpr]
  rw [List.forall_mem_map]
  intro block hmem
  have hpos : 0 < block.header.numRecords.toNat := by
    rw [(hreadable block hmem).counted]
    exact List.length_pos_iff.mpr (hne block hmem)
  exact decide_eq_true (UInt32.lt_iff_toNat_lt.mpr hpos)

/-- The blocks of a small file, with a record each. -/
def sampleBlocks (fdids : List UInt32) : List RootBlock :=
  fdids.map fun fdid => ⟨⟨1, 0, 2⟩, [⟨fdid, Key.constant 0x11, some 7⟩]⟩

/-- The file, in the first version. -/
def sampleRootFile (fdids : List UInt32) : RootFile :=
  ⟨.v1, none, sampleBlocks fdids, buildLookups (sampleBlocks fdids)⟩

/-- Blocks of the first version that are stored as they are, each with a record, are read back. -/
theorem parse_blocks {blocks : List RootBlock} {data : List UInt8}
    (hstored : ∀ block ∈ blocks, block.stored .v1 = block)
    (hreadable : ∀ block ∈ blocks, block.Readable) (hne : ∀ block ∈ blocks, block.records ≠ [])
    (hdata : blocks.flatMap (writeBlock .v1) = data)
    (hfront : readFront data = .ok (.v1, none, data)) :
    parse data = .ok ⟨.v1, none, blocks, buildLookups blocks⟩ := by
  refine parse_eq_ok_iff.mpr ⟨data, hfront, ?_, rfl⟩
  have hblocks : readBlocks .v1 [] (blocks.flatMap (writeBlock .v1)) = _ :=
    readBlocks_flatMap hreadable hne
  rwa [hdata, List.map_congr_left hstored, List.map_id'] at hblocks

theorem parse_sampleBlocks {fdids : List UInt32} {data : List UInt8}
    (hdata : (sampleBlocks fdids).flatMap (writeBlock .v1) = data)
    (hfront : readFront data = .ok (.v1, none, data)) :
    parse data = .ok (sampleRootFile fdids) := by
  refine parse_blocks (List.forall_mem_map.mpr fun fdid _ => ?_)
    (List.forall_mem_map.mpr fun fdid _ => ⟨rfl, by simp⟩)
    (List.forall_mem_map.mpr fun fdid _ => List.cons_ne_nil _ _) hdata hfront
  simp [RootBlock.stored, RootRecord.stored, storedContentFlags, storedNameHash]

/-! ### Files that were cut -/

/-- What stands before the blocks: nothing, or a header that has the last word. -/
theorem readFront_eq_ok_iff {data body : List UInt8} {version : RootVersion}
    {header : Option RootHeader} :
    readFront data = .ok (version, header, body) ↔
      ∃ detected later, detect data = .ok (detected, later) ∧
        if detected.hasHeader then ∃ found, readHeader data = .ok (found, body) ∧
          version = found.version ∧ header = some found
        else version = detected ∧ header = none ∧ body = data := by
  unfold readFront
  rw [Program.except_bind_eq_ok_iff]
  constructor
  · rintro ⟨⟨detected, later⟩, hdetect, h⟩
    refine ⟨detected, later, hdetect, ?_⟩
    dsimp only at h
    split_ifs at h ⊢
    · obtain ⟨⟨found, body'⟩, hread, h⟩ := Program.except_bind_eq_ok_iff.mp h
      cases h
      exact ⟨found, hread, rfl, rfl⟩
    · cases h
      exact ⟨rfl, rfl, rfl⟩
  · rintro ⟨detected, later, hdetect, h⟩
    refine ⟨(detected, later), hdetect, ?_⟩
    dsimp only
    split_ifs at h ⊢
    · obtain ⟨found, hread, rfl, rfl⟩ := h
      exact Program.except_bind_eq_ok_iff.mpr ⟨(found, body), hread, rfl⟩
    · obtain ⟨rfl, rfl, rfl⟩ := h
      rfl

/-- The front of a file that was cut is the front of the whole file. -/
theorem readFront_take {data body : List UInt8} {n : ℕ} {version : RootVersion}
    {header : Option RootHeader} (h : readFront (data.take n) = .ok (version, header, body)) :
    ∃ whole m, readFront data = .ok (version, header, whole) ∧ body = whole.take m := by
  obtain ⟨detected, later, hdetect, h⟩ := readFront_eq_ok_iff.mp h
  have hdetected := exact_detect.take hdetect
  split_ifs at h with hheader
  · obtain ⟨found, hread, hversion, hfound⟩ := h
    refine ⟨body ++ data.drop n, body.length, ?_, (List.take_left' rfl).symm⟩
    refine readFront_eq_ok_iff.mpr ⟨detected, _, hdetected, ?_⟩
    rw [if_pos hheader]
    exact ⟨found, exact_readHeader.take hread, hversion, hfound⟩
  · obtain ⟨hversion, hnone, rfl⟩ := h
    refine ⟨data, n, readFront_eq_ok_iff.mpr ⟨detected, _, hdetected, ?_⟩, rfl⟩
    rw [if_neg hheader]
    exact ⟨hversion, hnone, rfl⟩

/-- **A root file that was cut is refused, or read as the same file with fewer blocks.** -/
theorem parse_take {data : List UInt8} {file cut : RootFile} {n : ℕ}
    (hwhole : parse data = .ok file) (hcut : parse (data.take n) = .ok cut) :
    cut.version = file.version ∧ cut.header = file.header ∧ cut.blocks <+: file.blocks := by
  obtain ⟨body, hfront, hblocks, -⟩ := parse_eq_ok_iff.mp hwhole
  obtain ⟨body', hfront', hblocks', -⟩ := parse_eq_ok_iff.mp hcut
  obtain ⟨whole, m, hboth, rfl⟩ := readFront_take hfront'
  obtain ⟨hversion, hheader, rfl⟩ : file.version = cut.version ∧ file.header = cut.header ∧
      body = whole := by
    simpa using hfront.symm.trans hboth
  refine ⟨hversion.symm, hheader.symm, ?_⟩
  obtain ⟨read, tail, hrun, hstuck, heq, -⟩ := readBlocks_eq_ok_iff.mp hblocks
  obtain ⟨read', tail', hrun', -, heq', -⟩ := readBlocks_eq_ok_iff.mp hblocks'
  rw [hversion] at hrun hstuck
  rw [heq, heq', List.nil_append, List.nil_append]
  exact ((hrun'.of_take (exact_readBlock _)).isPrefix hrun hstuck).filter _

/-- Of two blocks the second is cut in the middle. -/
theorem parse_take_sample :
    ∃ cut, parse (((sampleBlocks [1, 5]).flatMap (writeBlock .v1)).take 60) = .ok cut ∧
      cut.blocks = sampleBlocks [1] ∧ cut.blocks <+: sampleBlocks [1, 5] := by
  have hwhole : parse ((sampleBlocks [1, 5]).flatMap (writeBlock .v1)) = .ok _ :=
    parse_sampleBlocks rfl rfl
  have hblocks : (parse (((sampleBlocks [1, 5]).flatMap (writeBlock .v1)).take 60)).toOption.map
      RootFile.blocks = some (sampleBlocks [1]) := by
    decide +kernel
  cases hcut : parse (((sampleBlocks [1, 5]).flatMap (writeBlock .v1)).take 60) with
  | error e =>
    rw [hcut] at hblocks
    cases hblocks
  | ok cut =>
    rw [hcut] at hblocks
    exact ⟨cut, rfl, Option.some.inj hblocks, (parse_take hwhole hcut).2.2⟩

/-! ### What the tables answer -/

/-- The entries of a block, each with the file and the name it is for. -/
def blockEntries (block : RootBlock) (blockIndex : ℕ) :
    List (UInt32 × Option UInt64 × RootEntry) :=
  block.records.map fun record => (record.fileDataId, record.nameHash,
    ⟨blockIndex, record.contentKey, block.header.localeFlags, block.header.contentFlags⟩)

/-- The entries of blocks that are counted from an index on. -/
def rootEntries (blocks : List RootBlock) (index : ℕ) :
    List (UInt32 × Option UInt64 × RootEntry) :=
  (blocks.zipIdx index).flatMap fun (block, blockIndex) => blockEntries block blockIndex

theorem buildLookups_eq (blocks : List RootBlock) :
    buildLookups blocks = (rootEntries blocks 0).foldl
      (fun tables e => tables.addEntry e.1 e.2.1 e.2.2) ⟨∅, ∅⟩ := by
  simp only [buildLookups, rootEntries, blockEntries, List.foldl_flatMap, List.foldl_map]

/-- The two tables are filled by pushing. -/
theorem foldl_addEntry (tables : RootLookupTables)
    (entries : List (UInt32 × Option UInt64 × RootEntry)) :
    entries.foldl (fun tables e => tables.addEntry e.1 e.2.1 e.2.2) tables =
      ⟨(entries.map fun e => (e.1, e.2.2)).foldl (fun m p => push m p.1 p.2) tables.fdidMap,
        (entries.filterMap fun e => e.2.1.map fun hash => (hash, e.2.2)).foldl
          (fun m p => push m p.1 p.2) tables.nameMap⟩ := by
  induction entries generalizing tables with
  | nil => rfl
  | cons e entries ih =>
    obtain ⟨fdid, nameHash, entry⟩ := e
    rw [List.foldl_cons, ih]
    cases nameHash <;> rfl

/-- The records of the blocks for a locale and with some content flags. -/
def recordsFor (blocks : List RootBlock) (locale : UInt32) (content : UInt64) :
    List RootRecord :=
  (blocks.filter fun block => (block.header.localeFlags &&& locale != 0) &&
    (block.header.contentFlags &&& content == content)).flatMap RootBlock.records

/-- The entries that match are those of the records of the blocks that do. -/
theorem rootEntries_filter (blocks : List RootBlock) (index : ℕ) (locale : UInt32)
    (content : UInt64) :
    ((rootEntries blocks index).filter fun e => e.2.2.matches locale content).map
        (fun e => (e.1, e.2.1, e.2.2.contentKey)) =
      (recordsFor blocks locale content).map
        fun record => (record.fileDataId, record.nameHash, record.contentKey) := by
  induction blocks generalizing index with
  | nil => rfl
  | cons block blocks ih =>
    -- all entries of a block match, or none does
    have hentries : (blockEntries block index).filter (fun e => e.2.2.matches locale content) =
        if (block.header.localeFlags &&& locale != 0) &&
          (block.header.contentFlags &&& content == content) then blockEntries block index
        else [] := by
      have hsame : ∀ e ∈ blockEntries block index, e.2.2.matches locale content =
          ((block.header.localeFlags &&& locale != 0) &&
            (block.header.contentFlags &&& content == content)) := by
        intro e he
        obtain ⟨record, -, rfl⟩ := List.mem_map.mp he
        rfl
      rw [List.filter_congr hsame]
      split_ifs with hmatches <;> simp [hmatches]
    have hcons : rootEntries (block :: blocks) index =
        blockEntries block index ++ rootEntries blocks (index + 1) := rfl
    rw [hcons, List.filter_append, List.map_append, ih, hentries, recordsFor, recordsFor,
      List.filter_cons]
    split_ifs
    · rw [List.flatMap_cons, List.map_append, blockEntries, List.map_map]
      rfl
    · rfl

/-- **A file is resolved to the first record** for it in a block that matches. -/
theorem resolveById_buildLookups (blocks : List RootBlock) (fdid : UInt32) (locale : UInt32)
    (content : UInt64) :
    (buildLookups blocks).resolveById fdid locale content =
      first ((recordsFor blocks locale content).map
        fun record => (record.fileDataId, record.contentKey)) fdid := by
  have hrecords := congrArg (List.map fun e => (e.1, e.2.2))
    (rootEntries_filter blocks 0 locale content)
  rw [List.map_map, List.map_map] at hrecords
  rw [buildLookups_eq, foldl_addEntry, RootLookupTables.resolveById, lookup_foldl_push,
    AList.lookup_empty, Option.getD_none, List.nil_append, find?_valuesOf, ← first_map,
    List.filter_map, List.map_map]
  exact congrArg (first · fdid) hrecords

/-- **A name is resolved to the first record** that has its hash in a block that matches. -/
theorem resolveByHash_buildLookups (blocks : List RootBlock) (nameHash : UInt64) (locale : UInt32)
    (content : UInt64) :
    (buildLookups blocks).resolveByHash nameHash locale content =
      first ((recordsFor blocks locale content).filterMap
        fun record => record.nameHash.map fun hash => (hash, record.contentKey)) nameHash := by
  have hrecords := congrArg (List.filterMap fun e => e.2.1.map fun hash => (hash, e.2.2))
    (rootEntries_filter blocks 0 locale content)
  rw [List.filterMap_map, List.filterMap_map] at hrecords
  rw [buildLookups_eq, foldl_addEntry, RootLookupTables.resolveByHash, lookup_foldl_push,
    AList.lookup_empty, Option.getD_none, List.nil_append, find?_valuesOf, ← first_map]
  refine (congrArg (first · nameHash) ?_).trans (congrArg (first · nameHash) hrecords)
  rw [List.filter_filterMap, List.map_filterMap, List.filterMap_filter]
  refine List.filterMap_congr fun e _ => ?_
  cases hhash : e.2.1 <;> by_cases hmatches : e.2.2.matches locale content <;>
    simp [hhash, hmatches]

/-- **Every lookup in a file that was read finds the first record** that matches, by the number
of a file and by the hash of a name. -/
theorem resolve_of_parse {data : List UInt8} {file : RootFile} (h : parse data = .ok file)
    (locale : UInt32) (content : UInt64) :
    (∀ fdid, file.resolveById fdid locale content =
      first ((recordsFor file.blocks locale content).map
        fun record => (record.fileDataId, record.contentKey)) fdid) ∧
      ∀ nameHash, file.resolveByHash nameHash locale content =
        first ((recordsFor file.blocks locale content).filterMap
          fun record => record.nameHash.map fun hash => (hash, record.contentKey)) nameHash := by
  obtain ⟨-, -, -, hlookups⟩ := parse_eq_ok_iff.mp h
  simp only [RootFile.resolveById, RootFile.resolveByHash, hlookups]
  exact ⟨fun fdid => resolveById_buildLookups file.blocks fdid locale content,
    fun nameHash => resolveByHash_buildLookups file.blocks nameHash locale content⟩

theorem resolve_of_parse_sample :
    (sampleRootFile [1, 5]).resolveById 5 2 0 = some (Key.constant 0x11) ∧
      (sampleRootFile [1, 5]).resolveByHash 7 2 0 = some (Key.constant 0x11) := by
  have hparse : parse ((sampleBlocks [1, 5]).flatMap (writeBlock .v1)) = .ok _ :=
    parse_sampleBlocks rfl rfl
  obtain ⟨hid, hhash⟩ := resolve_of_parse hparse 2 0
  exact ⟨(hid 5).trans (by decide), (hhash 7).trans (by decide)⟩

/-! ### What the client makes of it -/

/-- The part of a root file that the client looks at. -/
def RootFile.view (file : RootFile) : AssetResolver.RootFile where
  blocks := file.blocks.map fun block =>
    ⟨block.header.localeFlags, block.records.map fun record =>
      ⟨record.fileDataId, record.contentKey⟩⟩

theorem clientRecords_view (file : RootFile) :
    clientRecords file.view = (recordsFor file.blocks clientLocale 0).map
      fun record => (record.fileDataId, record.contentKey) := by
  have hall : ∀ flags : UInt64, (flags &&& 0 == 0) = true := fun flags => by simp
  simp only [clientRecords, RootFile.clientBlocks, RootFile.view, recordsFor, List.filter_map,
    List.flatMap_map, List.map_flatMap, List.map_map, hall, Bool.and_true]
  rfl

/-- **The library and the client agree on a file** exactly when the first and the last record
that the client sees for it have one content. -/
theorem resolveById_eq_client_iff {data : List UInt8} {file : RootFile}
    (h : parse data = .ok file) (fdid : UInt32) :
    (∀ key, file.resolveById fdid clientLocale 0 = some key ↔
        (collectFdidToContentKeys file.view).lookup fdid = some key) ↔
      ∀ key key', IsFirst (clientRecords file.view) fdid key →
        IsLast (clientRecords file.view) fdid key' → key = key' := by
  obtain ⟨-, -, -, hlookups⟩ := parse_eq_ok_iff.mp h
  rw [RootFile.resolveById, hlookups, resolveById_buildLookups, ← clientRecords_view,
    collectFdidToContentKeys_eq]
  exact first_eq_lookup_iff

/-- Two contents of one file. -/
def rivalBlocks : List RootBlock :=
  [⟨⟨1, 0, 2⟩, [⟨5, Key.constant 0x11, some 7⟩]⟩, ⟨⟨1, 0, 2⟩, [⟨5, Key.constant 0x22, some 7⟩]⟩]

theorem parse_rivalBlocks : parse (rivalBlocks.flatMap (writeBlock .v1)) =
    .ok ⟨.v1, none, rivalBlocks, buildLookups rivalBlocks⟩ :=
  parse_blocks (by decide) (by rintro block (_ | ⟨_, _ | ⟨_, ⟨⟩⟩⟩) <;> exact ⟨rfl, by simp⟩)
    (by decide) rfl rfl

/-- They agree on a file with one content, and not on a file with two. -/
theorem resolveById_eq_client_sample :
    (sampleRootFile [1, 5]).resolveById 5 clientLocale 0 =
      (collectFdidToContentKeys (sampleRootFile [1, 5]).view).lookup 5 ∧
    ∃ file, parse (rivalBlocks.flatMap (writeBlock .v1)) = .ok file ∧
      ¬∀ key, file.resolveById 5 clientLocale 0 = some key ↔
        (collectFdidToContentKeys file.view).lookup 5 = some key := by
  have hparse : parse ((sampleBlocks [1, 5]).flatMap (writeBlock .v1)) = .ok _ :=
    parse_sampleBlocks rfl rfl
  have hall : ∀ e ∈ clientRecords (sampleRootFile [1, 5]).view, e.2 = Key.constant 0x11 := by decide
  refine ⟨Option.ext ((resolveById_eq_client_iff hparse 5).mpr ?_), _, parse_rivalBlocks, ?_⟩
  · rintro key key' ⟨front, back, hrecords, -⟩ hlast
    exact (hall _ (hrecords ▸ List.mem_append_cons_self)).trans (hall _ hlast.mem).symm
  · intro hsame
    have heq := (resolveById_eq_client_iff parse_rivalBlocks 5).mp hsame (Key.constant 0x11)
      (Key.constant 0x22) ⟨[], [(5, Key.constant 0x22)], rfl, by simp⟩
      ⟨[(5, Key.constant 0x11)], [], rfl, by simp⟩
    exact absurd heq (by decide)

end Root

end AssetResolver
