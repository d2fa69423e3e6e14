import AssetResolver.Library.Readers
import AssetResolver.Resolution.Table

/-!
# The root file

The parser and the writer of root files, in the four versions of the format: the header,
whose byte order depends on its magic; the blocks, whose records stand in separate arrays
(or, in the first version, partly interleaved), with the numbers of the files as differences;
and the loop over the blocks, which takes **any failure behind the first block for the end of
the file**.

A block comes back as it was written, up to what the version has no room for
(`AssetResolver.Root.RootBlock.stored`, `AssetResolver.Root.reads_readBlock`). The numbers of the
files do whatever they are, sorted or not, because the differences are taken modulo 2³²
(`AssetResolver.Root.decodeFileDataIdsTact_encodeFileDataIdsTact`).
-/

namespace AssetResolver

/-- The 16 bytes of a key. -/
def Key.layout : Layout Key where
  width := 16
  encode := Key.bytes
  decode bytes := if h : bytes.length = 16 then ⟨bytes, h⟩ else Key.constant 0
  length_encode := Key.length_eq
  decode_encode key := dif_pos key.length_eq
  encode_decode bytes hlength := by rw [dif_pos hlength]

@[simp] theorem Key.width_layout : Key.layout.width = 16 := rfl

namespace Root

open ByteReader Layout

/-! ### Data -/

/-- `RootVersion`. -/
inductive RootVersion where
  /-- No header, interleaved records. -/
  | v1 : RootVersion
  /-- A header with the numbers of files. -/
  | v2 : RootVersion
  /-- A header with its size and version. -/
  | v3 : RootVersion
  /-- Content flags of 40 bits. -/
  | v4 : RootVersion
  deriving DecidableEq

/-- `has_header`. -/
def RootVersion.hasHeader : RootVersion → Bool
  | .v1 => false
  | .v2 | .v3 | .v4 => true

/-- `RootMagic`. -/
inductive RootMagic where
  /-- `MFST`: big-endian. -/
  | mfst : RootMagic
  /-- `TSFM`: little-endian. -/
  | tsfm : RootMagic
  deriving DecidableEq

/-- `to_bytes`. -/
def RootMagic.toBytes : RootMagic → List UInt8
  | .mfst => osString "MFST"
  | .tsfm => osString "TSFM"

/-- `RootMagic::from_bytes`. -/
def RootMagic.fromBytes (bytes : List UInt8) : Option RootMagic :=
  [.mfst, .tsfm].find? fun magic => magic.toBytes = bytes

/-- A number of the header, in the byte order of the magic. -/
def RootMagic.number : RootMagic → Layout UInt32
  | .mfst => uint32.reversed
  | .tsfm => uint32

/-- `RootHeaderInfo`. -/
structure RootHeaderInfo where
  /-- `total_files`. -/
  totalFiles : UInt32
  /-- `named_files`. -/
  namedFiles : UInt32
  deriving DecidableEq

/-- `RootHeader`. -/
inductive RootHeader where
  /-- The classic header of 12 bytes. -/
  | v2 (magic : RootMagic) (info : RootHeaderInfo) : RootHeader
  /-- The extended header. -/
  | v3v4 (magic : RootMagic) (headerSize version : UInt32) (info : RootHeaderInfo)
      (padding : UInt32) : RootHeader
  deriving DecidableEq

/-- `version`. -/
def RootHeader.version : RootHeader → RootVersion
  | .v2 _ _ => .v2
  | .v3v4 _ _ version _ _ =>
    if version = 2 then .v2 else if version = 3 then .v3 else if 4 ≤ version then .v4 else .v3

/-- `total_files`. -/
def RootHeader.totalFiles : RootHeader → UInt32
  | .v2 _ info | .v3v4 _ _ _ info _ => info.totalFiles

/-- `named_files`. -/
def RootHeader.namedFiles : RootHeader → UInt32
  | .v2 _ info | .v3v4 _ _ _ info _ => info.namedFiles

/-- `ContentFlags::NO_NAME_HASH`. -/
def noNameHash : UInt64 := 0x10000000

/-- `ContentFlags::has_name_hashes`. -/
def hasNameHashes (contentFlags : UInt64) : Bool := !(contentFlags &&& noNameHash != 0)

/-- `RootRecord`. -/
structure RootRecord where
  /-- `file_data_id`. -/
  fileDataId : UInt32
  /-- `content_key`. -/
  contentKey : Key
  /-- `name_hash`. -/
  nameHash : Option UInt64
  deriving DecidableEq

/-- `RootBlockHeader`. -/
structure RootBlockHeader where
  /-- `num_records`. -/
  numRecords : UInt32
  /-- `content_flags`, up to 40 bits of them. -/
  contentFlags : UInt64
  /-- `locale_flags`. -/
  localeFlags : UInt32
  deriving DecidableEq

/-- `RootBlock`. -/
structure RootBlock where
  /-- `header`. -/
  header : RootBlockHeader
  /-- `records`. -/
  records : List RootRecord
  deriving DecidableEq

/-- `RootError`. -/
inductive RootError where
  /-- `Io`: a `read_exact` meets the end. -/
  | io : RootError
  /-- `BinRw`: another read does. -/
  | binRw : RootError
  /-- `InvalidDelta`. -/
  | invalidDelta : RootError
  /-- `CorruptedBlockHeader`. -/
  | corruptedBlockHeader (text : String) : RootError
  deriving DecidableEq

/-- A part of the parser. -/
abbrev Reader := ByteReader RootError

/-! ### The header -/

/-- The version that the first two numbers of a header stand for. -/
def detectVersion (value1 value2 : UInt32) : RootVersion :=
  if 16 ≤ value1 ∧ value1 < 100 ∧ 2 ≤ value2 ∧ value2 ≤ 4 then
    if value2 = 2 then .v2 else if value2 = 3 then .v3 else .v4
  else .v2

/-- `RootVersion::detect`, which goes back to where it began afterwards. -/
def detect : Reader RootVersion := do
  let magicBuffer ← exactly .io 4
  match RootMagic.fromBytes magicBuffer with
  | some magic => do
    let value1 ← value .io magic.number
    let value2 ← value .io magic.number
    return detectVersion value1 value2
  | none => return .v1

/-- Whether the first two numbers are taken for those of an extended header. -/
def isExtendedHeader (value1 value2 : UInt32) : Prop :=
  16 ≤ value1 ∧ value1 < 100 ∧ value2 < 10 ∧ value2 < value1

instance (value1 value2 : UInt32) : Decidable (isExtendedHeader value1 value2) :=
  inferInstanceAs (Decidable (_ ∧ _))

/-- `RootHeaderInfo::read`. -/
def readHeaderInfo (magic : RootMagic) : Reader RootHeaderInfo := do
  let totalFiles ← value .io magic.number
  let namedFiles ← value .io magic.number
  return ⟨totalFiles, namedFiles⟩

/-- `RootHeader::read`. -/
def readHeader : Reader RootHeader := do
  let magicBytes ← exactly .io 4
  let magic := if magicBytes = RootMagic.tsfm.toBytes then RootMagic.tsfm else .mfst
  let value1 ← value .io magic.number
  let value2 ← value .io magic.number
  if isExtendedHeader value1 value2 then do
    let info ← readHeaderInfo magic
    let padding ← value .io magic.number
    return .v3v4 magic value1 value2 info padding
  else return .v2 magic ⟨value1, value2⟩

/-- `write_le` and `write_be` of `RootHeaderInfo`. -/
def writeHeaderInfo (magic : RootMagic) (info : RootHeaderInfo) : List UInt8 :=
  magic.number.encode info.totalFiles ++ magic.number.encode info.namedFiles

/-- `RootHeader::write`. -/
def writeHeader : RootHeader → List UInt8
  | .v2 magic info => magic.toBytes ++ writeHeaderInfo magic info
  | .v3v4 magic headerSize version info padding =>
    magic.toBytes ++ (magic.number.encode headerSize ++ (magic.number.encode version ++
      (writeHeaderInfo magic info ++ magic.number.encode padding)))

/-! ### The numbers of the files -/

/-- `decode_file_data_ids_tact`, from a number on. -/
def decodeFrom (currentId : UInt32) : List UInt32 → List UInt32
  | [] => []
  | delta :: deltas => (currentId + delta) :: decodeFrom (currentId + delta + 1) deltas

/-- `decode_file_data_ids_tact`. -/
def decodeFileDataIdsTact (deltas : List UInt32) : List UInt32 := decodeFrom 0 deltas

/-- The differences behind a number. -/
def encodeAfter (prev : UInt32) : List UInt32 → List UInt32
  | [] => []
  | current :: fdids => (current - prev - 1) :: encodeAfter current fdids

/-- `encode_file_data_ids_tact`. -/
def encodeFileDataIdsTact : List UInt32 → List UInt32
  | [] => []
  | fdid :: fdids => fdid :: encodeAfter fdid fdids

/-! ### Reading a block -/

/-- A 32-bit number. -/
def readU32 : Reader UInt32 := value .binRw uint32

/-- A block without the records that its header announces, or with none to announce. -/
def hasNoRecords (header : RootBlockHeader) : Prop :=
  header.numRecords = 0 ∨ 1000000 < header.numRecords

instance (header : RootBlockHeader) : Decidable (hasNoRecords header) :=
  inferInstanceAs (Decidable (_ ∨ _))

/-- `parse_v1_block`. -/
def parseV1Block (header : RootBlockHeader) (count : ℕ) : Reader RootBlock := do
  let deltas ← several readU32 count
  let fdids := decodeFileDataIdsTact deltas
  let entries ← several (value .binRw (Key.layout.prod uint64)) count
  return ⟨header, List.zipWith (fun fdid entry => ⟨fdid, entry.1, some entry.2⟩) fdids entries⟩

/-- `parse_v2_block`. -/
def parseV2Block (header : RootBlockHeader) (count : ℕ) (contentFlags : UInt64) :
    Reader RootBlock := do
  let deltas ← several readU32 count
  let fdids := decodeFileDataIdsTact deltas
  let contentKeys ← several (value .binRw Key.layout) count
  let nameHashes ← (if hasNameHashes contentFlags then
      several (some <$> value .binRw uint64) count
    else return List.replicate count none : Reader (List (Option UInt64)))
  return ⟨header, List.zipWith (fun (entry : UInt32 × Key) nameHash =>
    ⟨entry.1, entry.2, nameHash⟩) (fdids.zip contentKeys) nameHashes⟩

/-- `RootBlockHeader` of the first version, as it is laid out. -/
def headerV1Layout : Layout (UInt32 × UInt32 × UInt32) := uint32.prod (uint32.prod uint32)

/-- `parse_v1_header`. -/
def parseV1Header : Reader RootBlock := do
  let (numRecords, contentFlags, localeFlags) ← value .binRw headerV1Layout
  let header : RootBlockHeader := ⟨numRecords, contentFlags.toUInt64, localeFlags⟩
  if hasNoRecords header then return ⟨header, []⟩
  else parseV1Block header numRecords.toNat

/-- `RootBlockHeaderV2`: the number of records, the locale flags and the content flags in
three fields. -/
def headerV2Layout : Layout (UInt32 × UInt32 × UInt32 × UInt32 × UInt8) :=
  uint32.prod (uint32.prod (uint32.prod (uint32.prod uint8)))

/-- `reconstruct_v2_content_flags`. -/
def reconstructV2ContentFlags (contentFlags1 contentFlags2 : UInt32) (contentFlags3 : UInt8) :
    UInt64 :=
  contentFlags1.toUInt64 ||| contentFlags2.toUInt64 ||| (contentFlags3.toUInt64 <<< 17)

/-- `parse_v2v3_header`. -/
def parseV2v3Header : Reader RootBlock := do
  let (numRecords, localeFlags, flags1, flags2, flags3) ← value .binRw headerV2Layout
  let contentFlags := reconstructV2ContentFlags flags1 flags2 flags3
  let header : RootBlockHeader := ⟨numRecords, contentFlags, localeFlags⟩
  if hasNoRecords header then return ⟨header, []⟩
  else parseV2Block header numRecords.toNat contentFlags

/-- The header of a block of the fourth version: the content flags are in a field of 32 bits
and one of 8, and two more fields are passed over. -/
def headerV4Layout : Layout (UInt32 × UInt32 × (UInt32 × UInt8) × UInt32 × UInt8) :=
  uint32.prod (uint32.prod ((uint32.prod uint8).prod (uint32.prod uint8)))

/-- `parse_v4_header`. -/
def parseV4Header : Reader RootBlock := do
  let (numRecords, localeFlags, (low, high), _) ← value .binRw headerV4Layout
  let contentFlags := low.toUInt64 ||| (high.toUInt64 <<< 32)
  let header : RootBlockHeader := ⟨numRecords, contentFlags, localeFlags⟩
  if hasNoRecords header then return ⟨header, []⟩
  else parseV2Block header numRecords.toNat contentFlags

/-- `RootBlock::parse`. -/
def readBlock : RootVersion → Reader RootBlock
  | .v1 => parseV1Header
  | .v2 | .v3 => parseV2v3Header
  | .v4 => parseV4Header

/-! ### Writing a block -/

/-- The numbers of the files of some records. -/
def fileDataIds (records : List RootRecord) : List UInt32 := records.map RootRecord.fileDataId

/-- `write_v1_block`. -/
def writeV1Block (records : List RootRecord) : List UInt8 :=
  (encodeFileDataIdsTact (fileDataIds records)).flatMap uint32.encode ++
    records.flatMap fun record =>
      (Key.layout.prod uint64).encode (record.contentKey, record.nameHash.getD 0)

/-- `write_v2_v3_block`. -/
def writeV2V3Block (records : List RootRecord) (contentFlags : UInt64) : List UInt8 :=
  (encodeFileDataIdsTact (fileDataIds records)).flatMap uint32.encode ++
    ((records.flatMap fun record => Key.layout.encode record.contentKey) ++
      if hasNameHashes contentFlags then
        records.flatMap fun record => uint64.encode (record.nameHash.getD 0)
      else [])

/-- `RootBlock::write`. -/
def writeBlock (version : RootVersion) (block : RootBlock) : List UInt8 :=
  let header := block.header
  let contentFlags := (header.contentFlags &&& 0xffffffff).toUInt32
  match version with
  | .v1 =>
    headerV1Layout.encode (header.numRecords, contentFlags, header.localeFlags) ++
      writeV1Block block.records
  | .v2 | .v3 =>
    headerV2Layout.encode (header.numRecords, header.localeFlags, contentFlags, 0, 0) ++
      writeV2V3Block block.records header.contentFlags
  | .v4 =>
    headerV4Layout.encode (header.numRecords, header.localeFlags,
      (contentFlags, ((header.contentFlags >>> 32) &&& 0xff).toUInt8), 0, 0) ++
      writeV2V3Block block.records header.contentFlags

/-! ### The numbers come back -/

theorem decodeFrom_encodeAfter (prev : UInt32) (fdids : List UInt32) :
    decodeFrom (prev + 1) (encodeAfter prev fdids) = fdids := by
  induction fdids generalizing prev with
  | nil => rfl
  | cons current fdids ih =>
    have hback : prev + 1 + (current - prev - 1) = current := by grind
    rw [encodeAfter, decodeFrom, hback, ih]

/-- **The numbers come back, in whatever order they are.** -/
theorem decodeFileDataIdsTact_encodeFileDataIdsTact (fdids : List UInt32) :
    decodeFileDataIdsTact (encodeFileDataIdsTact fdids) = fdids := by
  cases fdids with
  | nil => rfl
  | cons fdid fdids =>
    rw [encodeFileDataIdsTact, decodeFileDataIdsTact, decodeFrom, UInt32.zero_add,
      decodeFrom_encodeAfter]

@[simp] theorem length_encodeAfter (prev : UInt32) (fdids : List UInt32) :
    (encodeAfter prev fdids).length = fdids.length := by
  induction fdids generalizing prev with
  | nil => rfl
  | cons current fdids ih => rw [encodeAfter, List.length_cons, ih, List.length_cons]

@[simp] theorem length_encodeFileDataIdsTact (fdids : List UInt32) :
    (encodeFileDataIdsTact fdids).length = fdids.length := by
  cases fdids with
  | nil => rfl
  | cons fdid fdids => simp [encodeFileDataIdsTact]

@[simp] theorem length_fileDataIds (records : List RootRecord) :
    (fileDataIds records).length = records.length := List.length_map _

/-! ### The content flags come back -/

theorem and_mask32 (n : ℕ) : n &&& 4294967295 = n % 4294967296 :=
  Nat.and_two_pow_sub_one_eq_mod n 32

/-- The lower 32 bits, in a field of their own. -/
theorem toUInt64_toUInt32_mask (flags : UInt64) :
    (flags &&& 0xffffffff).toUInt32.toUInt64 = flags &&& 0xffffffff := by
  apply UInt64.toNat_inj.mp
  simp [and_mask32]

theorem reconstructV2ContentFlags_zero (flags : UInt32) :
    reconstructV2ContentFlags flags 0 0 = flags.toUInt64 := by
  simp [reconstructV2ContentFlags]

/-- The lower 40 bits, in a field of 32 and one of 8. -/
theorem join_mask40 (flags : UInt64) :
    ((flags &&& 0xffffffff).toUInt32.toUInt64 |||
      (((flags >>> 32) &&& 0xff).toUInt8.toUInt64 <<< 32)) = flags &&& 0xffffffffff := by
  have hmask8 : ((flags >>> 32) &&& 0xff).toUInt8.toUInt64.toNat =
      flags.toNat / 4294967296 % 256 := by
    have hand : ∀ n : ℕ, n &&& 255 = n % 256 := fun n => Nat.and_two_pow_sub_one_eq_mod n 8
    simp [hand, Nat.shiftRight_eq_div_pow]
  have hmask40 : (flags &&& 0xffffffffff).toNat = flags.toNat % 1099511627776 :=
    Nat.and_two_pow_sub_one_eq_mod flags.toNat 40
  have hmask32 : (flags &&& 0xffffffff).toNat = flags.toNat % 4294967296 := and_mask32 _
  -- two fields that do not overlap
  have hor : ∀ low high : ℕ, low < 4294967296 →
      low ||| high * 4294967296 = low + high * 4294967296 := fun low high h => by
    rw [Nat.or_comm, Nat.mul_comm, ← Nat.two_pow_add_eq_or_of_lt (i := 32) h, Nat.add_comm]
  apply UInt64.toNat_inj.mp
  rw [UInt64.toNat_or, UInt64.toNat_shiftLeft, toUInt64_toUInt32_mask, hmask8, hmask40, hmask32]
  have hshift : (flags.toNat / 4294967296 % 256) <<< ((32 : UInt64).toNat % 64) % 2 ^ 64 =
      flags.toNat / 4294967296 % 256 * 4294967296 := by
    have hsmall : flags.toNat / 4294967296 % 256 * 4294967296 < 18446744073709551616 := by omega
    rw [Nat.shiftLeft_eq]
    exact Nat.mod_eq_of_lt hsmall
  rw [hshift, hor _ _ (Nat.mod_lt _ (by decide))]
  omega

theorem hasNameHashes_mask32 (flags : UInt64) :
    hasNameHashes (flags &&& 0xffffffff) = hasNameHashes flags := by
  rw [hasNameHashes, hasNameHashes, UInt64.and_assoc]
  rfl

theorem hasNameHashes_mask40 (flags : UInt64) :
    hasNameHashes (flags &&& 0xffffffffff) = hasNameHashes flags := by
  rw [hasNameHashes, hasNameHashes, UInt64.and_assoc]
  rfl

/-! ### A block comes back -/

/-- The content flags that a version has room for. -/
def storedContentFlags (version : RootVersion) (flags : UInt64) : UInt64 :=
  match version with
  | .v1 | .v2 | .v3 => flags &&& 0xffffffff
  | .v4 => flags &&& 0xffffffffff

/-- The name hash a record comes back with: where there is room for one, none becomes zero. -/
def storedNameHash (version : RootVersion) (contentFlags : UInt64) (nameHash : Option UInt64) :
    Option UInt64 :=
  if version = .v1 ∨ hasNameHashes contentFlags then some (nameHash.getD 0) else none

/-- A record as it comes back from a block with some flags. -/
def RootRecord.stored (version : RootVersion) (contentFlags : UInt64) (record : RootRecord) :
    RootRecord :=
  { record with nameHash := storedNameHash version contentFlags record.nameHash }

/-- A block as it comes back. -/
def RootBlock.stored (version : RootVersion) (block : RootBlock) : RootBlock where
  header := { block.header with
    contentFlags := storedContentFlags version block.header.contentFlags }
  records := block.records.map (RootRecord.stored version block.header.contentFlags)

/-- The header of a block announces its records, and not more than the parser believes. -/
structure RootBlock.Readable (block : RootBlock) : Prop where
  counted : block.header.numRecords.toNat = block.records.length
  small : block.records.length ≤ 1000000

theorem RootBlock.Readable.numRecords_eq_zero_iff {block : RootBlock} (h : block.Readable) :
    block.header.numRecords = 0 ↔ block.records = [] := by
  rw [← UInt32.toNat_inj, h.counted]
  exact List.length_eq_zero_iff

theorem RootBlock.Readable.hasNoRecords_iff {block : RootBlock} (h : block.Readable)
    {header : RootBlockHeader} (hnum : header.numRecords = block.header.numRecords) :
    hasNoRecords header ↔ block.records = [] := by
  have hsmall : ¬1000000 < block.header.numRecords := by
    rw [UInt32.lt_iff_toNat_lt, h.counted]
    exact Nat.not_lt.mpr h.small
  rw [hasNoRecords, hnum, or_iff_left hsmall, h.numRecords_eq_zero_iff]

section Records

variable (records : List RootRecord)

theorem reads_deltas :
    Reads (several readU32 records.length)
      ((encodeFileDataIdsTact (fileDataIds records)).flatMap uint32.encode)
      (encodeFileDataIdsTact (fileDataIds records)) := by
  have h : Reads (several readU32 (encodeFileDataIdsTact (fileDataIds records)).length)
      ((encodeFileDataIdsTact (fileDataIds records)).flatMap uint32.encode)
      ((encodeFileDataIdsTact (fileDataIds records)).map id) :=
    reads_several fun delta _ => reads_value _ _ delta
  rwa [List.map_id, length_encodeFileDataIdsTact, length_fileDataIds] at h

/-- The arrays of a block of the first version. -/
theorem reads_parseV1Block (header : RootBlockHeader) (contentFlags : UInt64) :
    Reads (parseV1Block header records.length) (writeV1Block records)
      ⟨header, records.map (RootRecord.stored .v1 contentFlags)⟩ := by
  have hentries : Reads (several (value RootError.binRw (Key.layout.prod uint64)) records.length)
      (records.flatMap fun record =>
        (Key.layout.prod uint64).encode (record.contentKey, record.nameHash.getD 0))
      (records.map fun record => (record.contentKey, record.nameHash.getD 0)) :=
    reads_several fun record _ => reads_value _ _ (record.contentKey, record.nameHash.getD 0)
  refine (reads_deltas records).bind (hentries.bind_nil ?_)
  have hrecords : List.zipWith (fun fdid (entry : Key × UInt64) =>
        (⟨fdid, entry.1, some entry.2⟩ : RootRecord)) (fileDataIds records)
        (records.map fun record => (record.contentKey, record.nameHash.getD 0)) =
      records.map (RootRecord.stored .v1 contentFlags) := by
    rw [fileDataIds, List.zipWith_map, List.zipWith_self]
    refine List.map_congr_left fun record _ => ?_
    simp [RootRecord.stored, storedNameHash]
  rw [decodeFileDataIdsTact_encodeFileDataIdsTact, hrecords]
  exact reads_pure _

/-- The name hashes of a block of a later version. -/
theorem reads_nameHashes (contentFlags : UInt64) :
    Reads (if hasNameHashes contentFlags then
        several (some <$> value .binRw uint64) records.length
      else return List.replicate records.length none : Reader (List (Option UInt64)))
      (if hasNameHashes contentFlags then
        records.flatMap fun record => uint64.encode (record.nameHash.getD 0)
      else [])
      (records.map fun record =>
        if hasNameHashes contentFlags then some (record.nameHash.getD 0) else none) := by
  split_ifs with hhashes
  · exact reads_several fun record _ => (reads_value RootError.binRw uint64 _).map
  · rw [List.map_const']
    exact reads_pure _

/-- The arrays of a block of a later version. -/
theorem reads_parseV2Block {version : RootVersion} (hversion : version ≠ .v1)
    (header : RootBlockHeader) {contentFlags : UInt64}
    (hflags : hasNameHashes header.contentFlags = hasNameHashes contentFlags) :
    Reads (parseV2Block header records.length header.contentFlags)
      (writeV2V3Block records contentFlags)
      ⟨header, records.map (RootRecord.stored version contentFlags)⟩ := by
  rw [parseV2Block, hflags]
  have hkeys : Reads (several (value RootError.binRw Key.layout) records.length)
      (records.flatMap fun record => Key.layout.encode record.contentKey)
      (records.map RootRecord.contentKey) :=
    reads_several fun record _ => reads_value _ _ record.contentKey
  refine (reads_deltas records).bind
    (hkeys.bind ((reads_nameHashes records contentFlags).bind_nil ?_))
  have hrecords : List.zipWith (fun (entry : UInt32 × Key) nameHash =>
        (⟨entry.1, entry.2, nameHash⟩ : RootRecord))
        ((fileDataIds records).zip (records.map RootRecord.contentKey))
        (records.map fun record =>
          if hasNameHashes contentFlags then some (record.nameHash.getD 0) else none) =
      records.map (RootRecord.stored version contentFlags) := by
    rw [fileDataIds, List.zip_map', List.zipWith_map, List.zipWith_self]
    refine List.map_congr_left fun record _ => ?_
    simp [RootRecord.stored, storedNameHash, hversion]
  rw [decodeFileDataIdsTact_encodeFileDataIdsTact, hrecords]
  exact reads_pure _

end Records

/-- A block whose header was read reads its records, if it has any. -/
theorem reads_records {block : RootBlock} (hreadable : block.Readable) {header : RootBlockHeader}
    (hnum : header.numRecords = block.header.numRecords) {p : Reader RootBlock}
    {bytes : List UInt8} {records : List RootRecord}
    (hempty : block.records = [] → bytes = [] ∧ records = [])
    (hp : Reads p bytes ⟨header, records⟩) :
    Reads (if hasNoRecords header then return ⟨header, []⟩ else p) bytes ⟨header, records⟩ := by
  split_ifs with hnone
  · obtain ⟨rfl, rfl⟩ := hempty ((hreadable.hasNoRecords_iff hnum).mp hnone)
    exact reads_pure _
  · exact hp

/-- **A block comes back as it was written**, up to what the version has no room for. -/
theorem reads_readBlock (version : RootVersion) {block : RootBlock} (h : block.Readable) :
    Reads (readBlock version) (writeBlock version block) (block.stored version) := by
  have hempty : ∀ version, block.records = [] →
      block.records.map (RootRecord.stored version block.header.contentFlags) = [] :=
    fun version hnil => by rw [hnil, List.map_nil]
  have hv2 : ∀ {version : RootVersion} {header : RootBlockHeader}, version ≠ .v1 →
      header.numRecords = block.header.numRecords →
      hasNameHashes header.contentFlags = hasNameHashes block.header.contentFlags →
      Reads (if hasNoRecords header then return ⟨header, []⟩
        else parseV2Block header header.numRecords.toNat header.contentFlags)
        (writeV2V3Block block.records block.header.contentFlags)
        ⟨header, block.records.map (RootRecord.stored version block.header.contentFlags)⟩ := by
    intro version header hversion hnum hflags
    refine reads_records h hnum (fun hnil => ⟨?_, hempty version hnil⟩) ?_
    · rw [hnil]
      simp [writeV2V3Block, fileDataIds, encodeFileDataIdsTact]
    · rw [hnum, h.counted]
      exact reads_parseV2Block block.records hversion header hflags
  cases version with
  | v1 =>
    refine (reads_value RootError.binRw headerV1Layout _).bind ?_
    simp only [toUInt64_toUInt32_mask]
    refine reads_records h ?_ (fun hnil => ⟨?_, hempty .v1 hnil⟩) ?_
    · rfl
    · rw [hnil]
      simp [writeV1Block, fileDataIds, encodeFileDataIdsTact]
    · rw [h.counted]
      exact reads_parseV1Block block.records _ block.header.contentFlags
  | v2 | v3 =>
    refine (reads_value RootError.binRw headerV2Layout _).bind ?_
    have hflags :
        reconstructV2ContentFlags (block.header.contentFlags &&& 0xffffffff).toUInt32 0 0 =
          block.header.contentFlags &&& 0xffffffff := by
      rw [reconstructV2ContentFlags_zero, toUInt64_toUInt32_mask]
    simp only [hflags]
    exact hv2 (by decide) rfl (hasNameHashes_mask32 _)
  | v4 =>
    refine (reads_value RootError.binRw headerV4Layout _).bind ?_
    simp only [join_mask40]
    exact hv2 (by decide) rfl (hasNameHashes_mask40 _)

/-! ### A block is read from its bytes alone -/

theorem exact_parseV1Block (header : RootBlockHeader) (count : ℕ) :
    Exact (parseV1Block header count) :=
  ((exact_value _ _).several count).bind fun _ =>
    ((exact_value _ _).several count).bind fun _ => exact_pure _

theorem exact_parseV2Block (header : RootBlockHeader) (count : ℕ) (contentFlags : UInt64) :
    Exact (parseV2Block header count contentFlags) :=
  ((exact_value _ _).several count).bind fun _ => ((exact_value _ _).several count).bind fun _ =>
    (Exact.ite ((exact_value _ _).map.several count) (exact_pure _)).bind fun _ => exact_pure _

theorem exact_parseV1Header : Exact parseV1Header :=
  (exact_value _ _).bind fun _ => (exact_pure _).ite (exact_parseV1Block _ _)

theorem exact_parseV2v3Header : Exact parseV2v3Header :=
  (exact_value _ _).bind fun _ => (exact_pure _).ite (exact_parseV2Block _ _ _)

theorem exact_parseV4Header : Exact parseV4Header :=
  (exact_value _ _).bind fun _ => (exact_pure _).ite (exact_parseV2Block _ _ _)

theorem exact_readBlock (version : RootVersion) : Exact (readBlock version) := by
  cases version
  · exact exact_parseV1Header
  · exact exact_parseV2v3Header
  · exact exact_parseV2v3Header
  · exact exact_parseV4Header

/-- The numbers of the files are as many as the differences. -/
@[simp] theorem length_decodeFrom (currentId : UInt32) (deltas : List UInt32) :
    (decodeFrom currentId deltas).length = deltas.length := by
  induction deltas generalizing currentId with
  | nil => rfl
  | cons delta deltas ih => rw [decodeFrom, List.length_cons, ih, List.length_cons]

@[simp] theorem length_decodeFileDataIdsTact (deltas : List UInt32) :
    (decodeFileDataIdsTact deltas).length = deltas.length := length_decodeFrom 0 deltas

section Counted

variable {header : RootBlockHeader} {count : ℕ} {input rest : List UInt8} {block : RootBlock}

theorem parseV1Block_eq_ok (h : parseV1Block header count input = .ok (block, rest)) :
    block.header = header ∧ block.records.length = count := by
  obtain ⟨deltas, input₁, hdeltas, h⟩ := bind_eq_ok_iff.mp h
  obtain ⟨entries, input₂, hentries, h⟩ := bind_eq_ok_iff.mp h
  obtain ⟨rfl, -⟩ := pure_eq_ok_iff.mp h
  refine ⟨rfl, ?_⟩
  simp [length_of_several hdeltas, length_of_several hentries]

theorem parseV2Block_eq_ok {contentFlags : UInt64}
    (h : parseV2Block header count contentFlags input = .ok (block, rest)) :
    block.header = header ∧ block.records.length = count := by
  obtain ⟨deltas, input₁, hdeltas, h⟩ := bind_eq_ok_iff.mp h
  obtain ⟨contentKeys, input₂, hkeys, h⟩ := bind_eq_ok_iff.mp h
  obtain ⟨nameHashes, input₃, hhashes, h⟩ := bind_eq_ok_iff.mp h
  obtain ⟨rfl, -⟩ := pure_eq_ok_iff.mp h
  have hlength : nameHashes.length = count := by
    split_ifs at hhashes
    · exact length_of_several hhashes
    · obtain ⟨rfl, -⟩ := pure_eq_ok_iff.mp hhashes
      exact List.length_replicate
  refine ⟨rfl, ?_⟩
  simp [length_of_several hdeltas, length_of_several hkeys, hlength]

/-- Behind a header there are no records, or as many as it announces. -/
theorem readable_of_ite {p : Reader RootBlock}
    (hp : ∀ input block rest, p input = .ok (block, rest) →
      block.header = header ∧ block.records.length = header.numRecords.toNat)
    (h : (if hasNoRecords header then return ⟨header, []⟩ else p : Reader RootBlock) input =
      .ok (block, rest))
    (hne : block.records ≠ []) : block.Readable := by
  split_ifs at h with hnone
  · obtain ⟨rfl, -⟩ := pure_eq_ok_iff.mp h
    exact absurd rfl hne
  · obtain ⟨rfl, hlength⟩ := hp _ _ _ h
    have hsmall : ¬1000000 < block.header.numRecords := fun hlt => hnone (.inr hlt)
    rw [UInt32.lt_iff_toNat_lt] at hsmall
    exact ⟨hlength.symm, hlength ▸ Nat.not_lt.mp hsmall⟩

/-- **A block that was read with records has as many as its header announces.** -/
theorem readable_of_readBlock {version : RootVersion}
    (h : readBlock version input = .ok (block, rest)) (hne : block.records ≠ []) :
    block.Readable := by
  cases version with
  | v1 =>
    obtain ⟨_, later, -, h⟩ := bind_eq_ok_iff.mp h
    exact readable_of_ite (fun _ _ _ => parseV1Block_eq_ok) h hne
  | v2 | v3 =>
    obtain ⟨_, later, -, h⟩ := bind_eq_ok_iff.mp h
    exact readable_of_ite (fun _ _ _ => parseV2Block_eq_ok) h hne
  | v4 =>
    obtain ⟨_, later, -, h⟩ := bind_eq_ok_iff.mp h
    exact readable_of_ite (fun _ _ _ => parseV2Block_eq_ok) h hne

end Counted

/-- A block takes the bytes of its header at least. -/
theorem length_lt_of_readBlock {version : RootVersion} {input rest : List UInt8}
    {block : RootBlock} (h : readBlock version input = .ok (block, rest)) :
    rest.length < input.length := by
  cases version with
  | v1 =>
    exact length_lt_of_value_bind (by decide)
      (fun _ => (exact_pure _).ite (exact_parseV1Block _ _)) h
  | v2 | v3 =>
    exact length_lt_of_value_bind (by decide)
      (fun _ => (exact_pure _).ite (exact_parseV2Block _ _ _)) h
  | v4 =>
    exact length_lt_of_value_bind (by decide)
      (fun _ => (exact_pure _).ite (exact_parseV2Block _ _ _)) h

end Root

end AssetResolver
