import Mathlib.Algebra.Order.BigOperators.Group.List
import AssetResolver.Formats.Root
import AssetResolver.Listfile.Entries

/-!
# The encoding file

The parser and the writer of encoding files: a header, the table of the specifications, and two
runs of pages, each behind an index that has the checksum of every page. A page has a fixed
size, and what is behind its last entry is padding: **an entry that cannot be read ends its page
without an error if it looks like padding** (`AssetResolver.Encoding.readEntries`).

A parsed file keeps the bytes of its pages, so that it is written as it was read, unless its
texts were not UTF-8 (`AssetResolver.Encoding.build_of_parse`).

The checksum is a parameter.
-/

namespace AssetResolver

/-- Some bytes as a key, with zeros behind them. -/
def Key.padded (bytes : List UInt8) : Key :=
  Key.layout.decode ((bytes ++ List.replicate 16 0).take 16)

theorem Key.padded_bytes (key : Key) : Key.padded key.bytes = key := by
  rw [Key.padded, List.take_left' key.length_eq]
  exact Key.layout.decode_encode key

namespace Encoding

open ByteReader Layout Root

/-! ### Data -/

/-- `EncodingHeader`. -/
structure EncodingHeader where
  /-- `magic`. -/
  magic : UInt8 × UInt8
  /-- `version`. -/
  version : UInt8
  /-- `ckey_hash_size`. -/
  ckeyHashSize : UInt8
  /-- `ekey_hash_size`. -/
  ekeyHashSize : UInt8
  /-- `ckey_page_size_kb`. -/
  ckeyPageSizeKb : UInt16
  /-- `ekey_page_size_kb`. -/
  ekeyPageSizeKb : UInt16
  /-- `ckey_page_count`. -/
  ckeyPageCount : UInt32
  /-- `ekey_page_count`. -/
  ekeyPageCount : UInt32
  /-- `unk_11`. -/
  unk11 : UInt8
  /-- `espec_block_size`. -/
  especBlockSize : UInt32
  deriving DecidableEq

/-- `EncodingError`. -/
inductive EncodingError where
  /-- `InvalidMagic`. -/
  | invalidMagic (magic : List UInt8) : EncodingError
  /-- `UnsupportedVersion`. -/
  | unsupportedVersion (version : UInt8) : EncodingError
  /-- `ChecksumMismatch`. -/
  | checksumMismatch : EncodingError
  /-- `InvalidESpec`. -/
  | invalidESpec (espec : String) : EncodingError
  /-- `Io`. -/
  | io : EncodingError
  /-- `BinRw`. -/
  | binRw : EncodingError
  /-- `InvalidESpecSize`. -/
  | invalidESpecSize : EncodingError
  /-- `InvalidFlags`. -/
  | invalidFlags (flags : UInt8) : EncodingError
  /-- `InvalidHashSize`. -/
  | invalidHashSize (field : String) (value : UInt8) : EncodingError
  /-- `InvalidPageCount`. -/
  | invalidPageCount (field : String) (value : UInt32) : EncodingError
  /-- `InvalidESpecBlockSize`. -/
  | invalidESpecBlockSize (size : UInt32) : EncodingError
  /-- `EmptyESpec`. -/
  | emptyESpec : EncodingError
  /-- `UnterminatedESpec`. -/
  | unterminatedESpec : EncodingError
  /-- No error of the source: an index has no entry for a page, and the call panics. -/
  | panic : EncodingError
  deriving DecidableEq

/-- `IndexEntry`. -/
structure IndexEntry where
  /-- `first_key`. -/
  firstKey : Key
  /-- `checksum`. -/
  checksum : Key
  deriving DecidableEq

/-- `CKeyPageEntry`. -/
structure CKeyPageEntry where
  /-- `key_count`. -/
  keyCount : UInt8
  /-- `file_size`. -/
  fileSize : UInt64
  /-- `content_key`. -/
  contentKey : Key
  /-- `encoding_keys`. -/
  encodingKeys : List Key
  deriving DecidableEq

/-- `EKeyPageEntry`. -/
structure EKeyPageEntry where
  /-- `encoding_key`. -/
  encodingKey : Key
  /-- `espec_index`. -/
  especIndex : UInt32
  /-- `file_size`. -/
  fileSize : UInt64
  deriving DecidableEq

/-- `Page`. -/
structure Page (T : Type) where
  /-- `entries`. -/
  entries : List T
  /-- `original_data`. -/
  originalData : List UInt8
  deriving DecidableEq

/-- `EncodingFile`: the specifications of its table are a list of texts. -/
structure EncodingFile where
  /-- `header`. -/
  header : EncodingHeader
  /-- `espec_table`. -/
  especTable : List String
  /-- `ckey_index`. -/
  ckeyIndex : List IndexEntry
  /-- `ckey_pages`. -/
  ckeyPages : List (Page CKeyPageEntry)
  /-- `ekey_index`. -/
  ekeyIndex : List IndexEntry
  /-- `ekey_pages`. -/
  ekeyPages : List (Page EKeyPageEntry)
  /-- `trailing_espec`. -/
  trailingEspec : Option String
  deriving DecidableEq

/-- A part of the parser. -/
abbrev Reader := ByteReader EncodingError

/-! ### The header -/

/-- `EN`. -/
def magic : UInt8 × UInt8 := (0x45, 0x4e)

/-- A magic. -/
def magicLayout : Layout (UInt8 × UInt8) := uint8.prod uint8

/-- The header behind its magic, big-endian. -/
def headerLayout : Layout (UInt8 × UInt8 × UInt8 × UInt16 × UInt16 × UInt32 × UInt32 × UInt8 ×
    UInt32) :=
  uint8.prod (uint8.prod (uint8.prod (uint16.reversed.prod (uint16.reversed.prod
    (uint32.reversed.prod (uint32.reversed.prod (uint8.prod uint32.reversed)))))))

/-- `EncodingHeader::read_options`, with the error that `parse` reports for another magic. -/
def readHeader : Reader EncodingHeader := do
  let found ← value .binRw magicLayout
  if found = magic then do
    let (version, ckeyHashSize, ekeyHashSize, ckeyPageSizeKb, ekeyPageSizeKb, ckeyPageCount,
      ekeyPageCount, unk11, especBlockSize) ← value .binRw headerLayout
    return ⟨found, version, ckeyHashSize, ekeyHashSize, ckeyPageSizeKb, ekeyPageSizeKb,
      ckeyPageCount, ekeyPageCount, unk11, especBlockSize⟩
  else throw (.invalidMagic [found.1, found.2])

/-- `EncodingHeader::write_options`. -/
def writeHeader (header : EncodingHeader) : List UInt8 :=
  magicLayout.encode header.magic ++ headerLayout.encode (header.version, header.ckeyHashSize,
    header.ekeyHashSize, header.ckeyPageSizeKb, header.ekeyPageSizeKb, header.ckeyPageCount,
    header.ekeyPageCount, header.unk11, header.especBlockSize)

/-- `EncodingHeader::validate`. -/
def EncodingHeader.validate (header : EncodingHeader) : Except EncodingError Unit :=
  if header.version ≠ 1 then .error (.unsupportedVersion header.version)
  else if header.unk11 ≠ 0 then .error (.invalidFlags header.unk11)
  else if header.ckeyHashSize = 0 ∨ 16 < header.ckeyHashSize then
    .error (.invalidHashSize "ckey_hash_size" header.ckeyHashSize)
  else if header.ekeyHashSize = 0 ∨ 16 < header.ekeyHashSize then
    .error (.invalidHashSize "ekey_hash_size" header.ekeyHashSize)
  else if header.ckeyPageCount = 0 then
    .error (.invalidPageCount "ckey_page_count" header.ckeyPageCount)
  else if header.ekeyPageCount = 0 then
    .error (.invalidPageCount "ekey_page_count" header.ekeyPageCount)
  else if header.especBlockSize = 0 then .error (.invalidESpecBlockSize header.especBlockSize)
  else .ok ()

/-- `ckey_page_size`. -/
def EncodingHeader.ckeyPageSize (header : EncodingHeader) : ℕ := header.ckeyPageSizeKb.toNat * 1024

/-- `ekey_page_size`. -/
def EncodingHeader.ekeyPageSize (header : EncodingHeader) : ℕ := header.ekeyPageSizeKb.toNat * 1024

/-- `data_size`: where the text at the end begins. -/
def EncodingHeader.dataSize (header : EncodingHeader) : ℕ :=
  22 + header.ckeyPageCount.toNat * (32 + header.ckeyPageSize) +
    header.ekeyPageCount.toNat * (32 + header.ekeyPageSize) + header.especBlockSize.toNat

/-! ### The table of the specifications -/

/-- The loop of `ESpecTable::parse`. -/
def parseESpecs (entries : List String) (current : List UInt8) :
    List UInt8 → Except EncodingError (List String)
  | [] => if current = [] then .ok entries else .error .unterminatedESpec
  | byte :: data =>
    if byte = 0 then
      if current = [] then .error .emptyESpec
      else parseESpecs (entries ++ [toStringLossy current]) [] data
    else parseESpecs entries (current ++ [byte]) data

/-- `ESpecTable::build`. -/
def writeESpecs (entries : List String) : List UInt8 :=
  entries.flatMap fun spec => osString spec ++ [0]

/-! ### Entries -/

/-- A key of some size. -/
def readKey (size : ℕ) : Reader Key := Key.padded <$> exactly .binRw size

/-- A file size of 40 bits: the high byte, then the others, big-endian. -/
def fileSizeLayout : Layout (UInt8 × UInt32) := uint8.prod uint32.reversed

/-- The file size that two fields stand for. -/
def joinFileSize (fields : UInt8 × UInt32) : UInt64 :=
  (fields.1.toUInt64 <<< 32) ||| fields.2.toUInt64

/-- The two fields of a file size. -/
def splitFileSize (fileSize : UInt64) : UInt8 × UInt32 :=
  (((fileSize >>> 32) &&& 0xff).toUInt8, (fileSize &&& 0xffffffff).toUInt32)

/-- `CKeyPageEntry::read_options`. -/
def readCKeyEntry (ckeyHashSize ekeyHashSize : ℕ) : Reader CKeyPageEntry := do
  let keyCount ← value .binRw uint8
  if keyCount = 0 then throw .binRw
  else do
    let fields ← value .binRw fileSizeLayout
    let contentKey ← readKey ckeyHashSize
    let encodingKeys ← several (readKey ekeyHashSize) keyCount.toNat
    return ⟨keyCount, joinFileSize fields, contentKey, encodingKeys⟩

/-- `CKeyPageEntry::write_options`. -/
def writeCKeyEntry (ckeyHashSize ekeyHashSize : ℕ) (entry : CKeyPageEntry) : List UInt8 :=
  uint8.encode entry.keyCount ++ (fileSizeLayout.encode (splitFileSize entry.fileSize) ++
    (entry.contentKey.bytes.take ckeyHashSize ++
      entry.encodingKeys.flatMap fun key => key.bytes.take ekeyHashSize))

/-- What is taken for the padding behind the last encoding key: the number of no specification,
or no key at all. -/
def isEKeyPadding (key : Key) (especIndex : UInt32) : Prop :=
  especIndex = 0xffffffff ∨ especIndex = 0 ∧ ∀ b ∈ key.bytes, b = 0

instance (key : Key) (especIndex : UInt32) : Decidable (isEKeyPadding key especIndex) :=
  inferInstanceAs (Decidable (_ ∨ _))

/-- `EKeyPageEntry::read_options`. -/
def readEKeyEntry (ekeyHashSize : ℕ) : Reader EKeyPageEntry := do
  let encodingKey ← readKey ekeyHashSize
  let especIndex ← value .binRw uint32.reversed
  if isEKeyPadding encodingKey especIndex then throw .binRw
  else do
    let fields ← value .binRw fileSizeLayout
    return ⟨encodingKey, especIndex, joinFileSize fields⟩

/-- `EKeyPageEntry::write_options`. -/
def writeEKeyEntry (ekeyHashSize : ℕ) (entry : EKeyPageEntry) : List UInt8 :=
  entry.encodingKey.bytes.take ekeyHashSize ++ (uint32.reversed.encode entry.especIndex ++
    fileSizeLayout.encode (splitFileSize entry.fileSize))

/-! ### Pages -/

/-- What the loop over a page knows of its entries. -/
structure EntryFormat (T : Type) where
  /-- Reading an entry. -/
  read : Reader T
  /-- `min_entry_size`. -/
  minEntrySize : ℕ
  /-- Whether the padding begins here. -/
  isPadding : List UInt8 → Bool
  shorter : ∀ {input rest a}, read input = .ok (a, rest) → rest.length < input.length

/-- The loop over the entries of a page. -/
def readEntries {T : Type} (format : EntryFormat T) (entries : List T) (input : List UInt8) :
    Except EncodingError (List T) :=
  if input = [] then .ok entries
  else
    match _ : format.read input with
    | .ok (entry, rest) => readEntries format (entries ++ [entry]) rest
    | .error e =>
      if input.length < format.minEntrySize ∨ format.isPadding input then .ok entries
      else .error e
  termination_by input.length
  decreasing_by exact format.shorter ‹_›

/-- The loop of `parse_ckey_pages`. -/
def ckeyFormat (header : EncodingHeader) : EntryFormat CKeyPageEntry where
  read := readCKeyEntry header.ckeyHashSize.toNat header.ekeyHashSize.toNat
  minEntrySize := 1 + 5 + header.ckeyHashSize.toNat
  isPadding input := input.head? = some 0
  shorter h := length_lt_of_value_bind (by decide) (fun keyCount => by
    refine (exact_throw _).ite ?_
    exact (exact_value _ _).bind fun _ => (exact_exactly _ _).map.bind fun _ =>
      ((exact_exactly _ _).map.several _).bind fun _ => exact_pure _) h

/-- The loop of `parse_ekey_pages`. -/
def ekeyFormat (header : EncodingHeader) : EntryFormat EKeyPageEntry where
  read := readEKeyEntry header.ekeyHashSize.toNat
  minEntrySize := header.ekeyHashSize.toNat + 4 + 5
  isPadding input :=
    let checkSize := header.ekeyHashSize.toNat + 4
    let checkBytes := input.take checkSize
    let especBytes := checkBytes.drop header.ekeyHashSize.toNat
    checkBytes.length = checkSize ∧
      (uint32.reversed.decode especBytes = 0xffffffff ∨
        uint32.reversed.decode especBytes = 0 ∧
          (checkBytes.take header.ekeyHashSize.toNat).all (· == 0))
  shorter h := by
    obtain ⟨encodingKey, later, hkey, h⟩ := bind_eq_ok_iff.mp h
    have hle := (exact_exactly EncodingError.binRw header.ekeyHashSize.toNat).map.length_le hkey
    refine Nat.lt_of_lt_of_le (length_lt_of_value_bind (by decide) (fun _ => ?_) h) hle
    exact (exact_throw _).ite ((exact_value _ _).bind fun _ => exact_pure _)

variable (md5 : List UInt8 → Key)

/-- One turn of the loop over the pages: `IndexEntry::verify`, and then the entries. -/
def readPage {T : Type} (format : EntryFormat T) (pageSize : ℕ) (index : IndexEntry) :
    Reader (Page T) := do
  let pageData ← exactly .io pageSize
  if md5 pageData = index.checksum then do
    let entries ← result (readEntries format [] pageData)
    return ⟨entries, pageData⟩
  else throw .checksumMismatch

/-! ### The file -/

/-- An entry of an index, as it is laid out. -/
def indexLayout : Layout (Key × Key) := Key.layout.prod Key.layout

/-- Reading an entry of an index. -/
def readIndexEntry : Reader IndexEntry := (fun e => ⟨e.1, e.2⟩) <$> value .io indexLayout

/-- Writing an entry of an index. -/
def writeIndexEntry (entry : IndexEntry) : List UInt8 :=
  indexLayout.encode (entry.firstKey, entry.checksum)

/-- `EncodingFile::parse` up to the text at the end. -/
def readFile : Reader EncodingFile := do
  let header ← readHeader
  result header.validate
  let especData ← exactly .io header.especBlockSize.toNat
  let especTable ← result (parseESpecs [] [] especData)
  let ckeyIndex ← several readIndexEntry header.ckeyPageCount.toNat
  let ckeyPages ← each (readPage md5 (ckeyFormat header) header.ckeyPageSize) ckeyIndex
  let ekeyIndex ← several readIndexEntry header.ekeyPageCount.toNat
  let ekeyPages ← each (readPage md5 (ekeyFormat header) header.ekeyPageSize) ekeyIndex
  return ⟨header, especTable, ckeyIndex, ckeyPages, ekeyIndex, ekeyPages, none⟩

/-- The text at the end, if there is one. -/
def trailingText (trailingData : List UInt8) : Option String :=
  if trailingData = [] then none else some (toStringLossy trailingData)

/-- `EncodingFile::parse`. -/
def parse (data : List UInt8) : Except EncodingError EncodingFile := do
  let (file, trailingData) ← readFile md5 data
  return { file with trailingEspec := trailingText trailingData }

/-- The bytes of the pages of a kind, behind an index that has an entry for each of them: the
checksums are computed anew. -/
def bytesOfPages {T : Type} (index : List IndexEntry) (pages : List (Page T)) : List UInt8 :=
  (List.zipWith (fun (entry : IndexEntry) page =>
      writeIndexEntry ⟨entry.firstKey, md5 page.originalData⟩) index pages).flatten ++
    pages.flatMap Page.originalData

/-- Writing the pages of a kind. -/
def writePages {T : Type} (index : List IndexEntry) (pages : List (Page T)) :
    Except EncodingError (List UInt8) :=
  -- `&self.ckey_index[page_idx]`
  if index.length < pages.length then .error .panic else .ok (bytesOfPages md5 index pages)

/-- `EncodingFile::build`. -/
def EncodingFile.build (file : EncodingFile) : Except EncodingError (List UInt8) :=
  let especData := writeESpecs file.especTable
  if especData.length ≠ file.header.especBlockSize.toNat then .error .invalidESpecSize
  else do
    let ckeyPagesData ← writePages md5 file.ckeyIndex file.ckeyPages
    let ekeyPagesData ← writePages md5 file.ekeyIndex file.ekeyPages
    return writeHeader file.header ++ (especData ++ (ckeyPagesData ++ (ekeyPagesData ++
      ((file.trailingEspec.map osString).getD []))))

/-! ### What stands in a file that was read -/

theorem spells_readHeader : Spells readHeader writeHeader := by
  intro input header rest h
  obtain ⟨found, later, hfound, h⟩ := bind_eq_ok_iff.mp h
  split_ifs at h with hmagic
  · obtain ⟨fields, later', hfields, h⟩ := bind_eq_ok_iff.mp h
    obtain ⟨rfl, rfl⟩ := pure_eq_ok_iff.mp h
    rw [writeHeader, List.append_assoc, ← spells_value _ _ _ _ _ hfields]
    exact spells_value _ _ _ _ _ hfound
  · exact absurd h throw_ne_ok

theorem spells_readIndexEntry : Spells readIndexEntry writeIndexEntry := by
  intro input entry rest h
  rw [readIndexEntry, ← bind_pure_comp] at h
  obtain ⟨fields, later, hfields, h⟩ := bind_eq_ok_iff.mp h
  obtain ⟨rfl, rfl⟩ := pure_eq_ok_iff.mp h
  exact spells_value _ _ _ _ _ hfields

/-- A page of a format and a size, behind an entry of an index. -/
structure Page.Fits {T : Type} (format : EntryFormat T) (pageSize : ℕ) (index : IndexEntry)
    (page : Page T) : Prop where
  length : page.originalData.length = pageSize
  checksum : md5 page.originalData = index.checksum
  entries : readEntries format [] page.originalData = .ok page.entries

variable {md5}

/-- **A page that was read fits**, and its bytes stand where it was read. -/
theorem readPage_eq_ok {T : Type} {format : EntryFormat T} {pageSize : ℕ} {index : IndexEntry}
    {input rest : List UInt8} {page : Page T}
    (h : readPage md5 format pageSize index input = .ok (page, rest)) :
    page.Fits md5 format pageSize index ∧ input = page.originalData ++ rest := by
  obtain ⟨pageData, later, hdata, h⟩ := bind_eq_ok_iff.mp h
  split_ifs at h with hchecksum
  · obtain ⟨entries, later', hentries, h⟩ := bind_eq_ok_iff.mp h
    obtain ⟨hread, rfl⟩ := result_eq_ok_iff.mp hentries
    obtain ⟨rfl, rfl⟩ := pure_eq_ok_iff.mp h
    exact ⟨⟨length_of_exactly_eq_ok hdata, hchecksum, hread⟩, spells_exactly _ _ _ _ _ hdata⟩
  · exact absurd h throw_ne_ok

theorem reads_readPage {T : Type} {format : EntryFormat T} {pageSize : ℕ} {index : IndexEntry}
    {page : Page T} (h : page.Fits md5 format pageSize index) :
    Reads (readPage md5 format pageSize index) page.originalData page := by
  refine (reads_exactly EncodingError.io h.length).bind_nil ?_
  rw [if_pos h.checksum]
  exact (reads_result h.entries).bind_nil (reads_pure _)

/-- Pages that fit are written with the index they have. -/
theorem bytesOfPages_eq {T : Type} {format : EntryFormat T} {pageSize : ℕ} {index : List IndexEntry}
    {pages : List (Page T)} (h : List.Forall₂ (Page.Fits md5 format pageSize) index pages) :
    bytesOfPages md5 index pages =
      index.flatMap writeIndexEntry ++ pages.flatMap Page.originalData := by
  have hindex : List.zipWith (fun (entry : IndexEntry) (page : Page T) =>
      writeIndexEntry ⟨entry.firstKey, md5 page.originalData⟩) index pages =
        index.map writeIndexEntry := by
    induction h with
    | nil => rfl
    | cons hfits _ ih => rw [List.zipWith_cons_cons, ih, hfits.checksum, List.map_cons]
  rw [bytesOfPages, hindex, ← List.flatMap_def]

theorem length_flatMap_originalData {T : Type} {format : EntryFormat T} {pageSize : ℕ}
    {index : List IndexEntry} {pages : List (Page T)}
    (h : List.Forall₂ (Page.Fits md5 format pageSize) index pages) :
    (pages.flatMap Page.originalData).length = index.length * pageSize := by
  induction h with
  | nil => simp
  | cons hfits _ ih =>
    rw [List.flatMap_cons, List.length_append, ih, hfits.length, List.length_cons]
    ring

theorem length_flatMap_writeIndexEntry (index : List IndexEntry) :
    (index.flatMap writeIndexEntry).length = index.length * 32 := by
  induction index with
  | nil => rfl
  | cons entry index ih =>
    rw [List.flatMap_cons, List.length_append, ih, writeIndexEntry, length_encode,
      List.length_cons]
    have hwidth : indexLayout.width = 32 := rfl
    omega

theorem length_writeHeader (header : EncodingHeader) : (writeHeader header).length = 22 := by
  rw [writeHeader, List.length_append, length_encode, length_encode]
  rfl

/-! ### What is accepted -/

variable (md5)

/-- The pages of a file are those of its indexes. -/
structure EncodingFile.Stands (file : EncodingFile) : Prop where
  magic : file.header.magic = Encoding.magic
  valid : file.header.validate = .ok ()
  ckeyCount : file.ckeyIndex.length = file.header.ckeyPageCount.toNat
  ekeyCount : file.ekeyIndex.length = file.header.ekeyPageCount.toNat
  ckeyPages : List.Forall₂ (Page.Fits md5 (ckeyFormat file.header) file.header.ckeyPageSize)
    file.ckeyIndex file.ckeyPages
  ekeyPages : List.Forall₂ (Page.Fits md5 (ekeyFormat file.header) file.header.ekeyPageSize)
    file.ekeyIndex file.ekeyPages

/-- The bytes of a file, with a block of specifications and what is at the end. -/
def EncodingFile.bytesWith (file : EncodingFile) (especData trailingData : List UInt8) :
    List UInt8 :=
  writeHeader file.header ++ (especData ++ (bytesOfPages md5 file.ckeyIndex file.ckeyPages ++
    (bytesOfPages md5 file.ekeyIndex file.ekeyPages ++ trailingData)))

variable {md5}

theorem magic_of_readHeader {input rest : List UInt8} {header : EncodingHeader}
    (h : readHeader input = .ok (header, rest)) : header.magic = magic := by
  obtain ⟨found, later, -, h⟩ := bind_eq_ok_iff.mp h
  split_ifs at h with hmagic
  · obtain ⟨fields, later', -, h⟩ := bind_eq_ok_iff.mp h
    obtain ⟨rfl, -⟩ := pure_eq_ok_iff.mp h
    exact hmagic
  · exact absurd h throw_ne_ok

/-- Every part of a file that was read stands where it was read. -/
theorem readFile_eq_ok {data trailingData : List UInt8} {file : EncodingFile}
    (h : readFile md5 data = .ok (file, trailingData)) :
    file.Stands md5 ∧ ∃ especData, especData.length = file.header.especBlockSize.toNat ∧
      parseESpecs [] [] especData = .ok file.especTable ∧
      data = file.bytesWith md5 especData trailingData := by
  obtain ⟨header, data₁, hheader, h⟩ := bind_eq_ok_iff.mp h
  obtain ⟨⟨⟩, data₂, hresult, h⟩ := bind_eq_ok_iff.mp h
  obtain ⟨hvalid, rfl⟩ := result_eq_ok_iff.mp hresult
  obtain ⟨especData, data₃, hespec, h⟩ := bind_eq_ok_iff.mp h
  obtain ⟨especTable, data₄, hresult', h⟩ := bind_eq_ok_iff.mp h
  obtain ⟨htable, rfl⟩ := result_eq_ok_iff.mp hresult'
  obtain ⟨ckeyIndex, data₅, hckeyIndex, h⟩ := bind_eq_ok_iff.mp h
  obtain ⟨ckeyPages, data₆, hckeyPages, h⟩ := bind_eq_ok_iff.mp h
  obtain ⟨ekeyIndex, data₇, hekeyIndex, h⟩ := bind_eq_ok_iff.mp h
  obtain ⟨ekeyPages, data₈, hekeyPages, h⟩ := bind_eq_ok_iff.mp h
  obtain ⟨rfl, rfl⟩ := pure_eq_ok_iff.mp h
  have hckeyFits := forall₂_of_each (fun _ _ _ _ hpage => (readPage_eq_ok hpage).1) hckeyPages
  have hekeyFits := forall₂_of_each (fun _ _ _ _ hpage => (readPage_eq_ok hpage).1) hekeyPages
  refine ⟨⟨magic_of_readHeader hheader, hvalid, length_of_several hckeyIndex,
    length_of_several hekeyIndex, hckeyFits, hekeyFits⟩, especData,
    length_of_exactly_eq_ok hespec, htable, ?_⟩
  have hspells : ∀ {T : Type} {format : EntryFormat T} {pageSize : ℕ} (index : IndexEntry),
      Spells (readPage md5 format pageSize index) Page.originalData :=
    fun _ _ _ _ hpage => (readPage_eq_ok hpage).2
  rw [EncodingFile.bytesWith, bytesOfPages_eq hckeyFits, bytesOfPages_eq hekeyFits,
    spells_readHeader _ _ _ hheader, spells_exactly _ _ _ _ _ hespec,
    spells_readIndexEntry.several _ _ _ _ hckeyIndex, Spells.each hspells _ _ _ _ hckeyPages,
    spells_readIndexEntry.several _ _ _ _ hekeyIndex, Spells.each hspells _ _ _ _ hekeyPages]
  simp only [List.append_assoc, id]

theorem reads_readHeader {header : EncodingHeader} (h : header.magic = magic) :
    Reads readHeader (writeHeader header) header := by
  refine (reads_value EncodingError.binRw magicLayout header.magic).bind ?_
  rw [if_pos h]
  exact (reads_value _ _ _).bind_nil (reads_pure _)

theorem reads_index (index : List IndexEntry) {count : ℕ} (h : index.length = count) :
    Reads (several readIndexEntry count) (index.flatMap writeIndexEntry) index := by
  have hread : Reads (several readIndexEntry index.length) (index.flatMap writeIndexEntry)
      (index.map id) :=
    reads_several fun entry _ =>
      (reads_value EncodingError.io indexLayout (entry.firstKey, entry.checksum)).map
  rwa [List.map_id, h] at hread

theorem reads_readFile {file : EncodingFile} (hstands : file.Stands md5) {especData : List UInt8}
    (hlength : especData.length = file.header.especBlockSize.toNat)
    (htable : parseESpecs [] [] especData = .ok file.especTable) :
    Reads (readFile md5) (file.bytesWith md5 especData []) { file with trailingEspec := none } := by
  rw [EncodingFile.bytesWith, bytesOfPages_eq hstands.ckeyPages, bytesOfPages_eq hstands.ekeyPages,
    List.append_nil, List.append_assoc]
  refine (reads_readHeader hstands.magic).bind ((reads_result hstands.valid).nil_bind ?_)
  refine (reads_exactly EncodingError.io hlength).bind ((reads_result htable).nil_bind ?_)
  have hckeyPages := reads_each (hstands.ckeyPages.imp fun _ _ => reads_readPage)
  have hekeyPages := reads_each (hstands.ekeyPages.imp fun _ _ => reads_readPage)
  exact (reads_index _ hstands.ckeyCount).bind (hckeyPages.bind
    ((reads_index _ hstands.ekeyCount).bind (hekeyPages.bind_nil (reads_pure _))))

/-- **What the parser accepts**: bytes in which pages that fit stand behind their indexes. -/
theorem parse_eq_ok_iff {data : List UInt8} {file : EncodingFile} :
    parse md5 data = .ok file ↔ file.Stands md5 ∧ ∃ especData trailingData,
      especData.length = file.header.especBlockSize.toNat ∧
      parseESpecs [] [] especData = .ok file.especTable ∧
      file.trailingEspec = trailingText trailingData ∧
      data = file.bytesWith md5 especData trailingData := by
  unfold parse
  rw [Program.except_bind_eq_ok_iff]
  constructor
  · rintro ⟨⟨front, trailingData⟩, h, hfile⟩
    obtain rfl := Except.ok.inj hfile
    obtain ⟨hstands, especData, hlength, htable, hdata⟩ := readFile_eq_ok h
    exact ⟨⟨hstands.magic, hstands.valid, hstands.ckeyCount, hstands.ekeyCount, hstands.ckeyPages,
      hstands.ekeyPages⟩, especData, trailingData, hlength, htable, rfl, hdata⟩
  · rintro ⟨hstands, especData, trailingData, hlength, htable, htrailing, rfl⟩
    have hread := reads_readFile hstands hlength htable trailingData
    refine ⟨({ file with trailingEspec := none }, trailingData), ?_, ?_⟩
    · simpa only [EncodingFile.bytesWith, List.append_assoc, List.append_nil] using hread
    · change Except.ok { file with trailingEspec := trailingText trailingData } = Except.ok file
      rw [← htrailing]

/-! ### The specifications come back -/

/-- Bytes that are not zero are gathered. -/
theorem parseESpecs_append {bytes : List UInt8} (h : ∀ b ∈ bytes, b ≠ 0) (entries : List String)
    (current rest : List UInt8) :
    parseESpecs entries current (bytes ++ rest) = parseESpecs entries (current ++ bytes) rest := by
  induction bytes generalizing current with
  | nil => rw [List.nil_append, List.append_nil]
  | cons b bytes ih =>
    rw [List.forall_mem_cons] at h
    rw [List.cons_append, parseESpecs, if_neg h.1, ih h.2, List.append_assoc]
    rfl

/-- A zero closes a specification. -/
theorem parseESpecs_zero {entries : List String} {current rest : List UInt8} {table : List String}
    (h : parseESpecs entries current (0 :: rest) = .ok table) :
    current ≠ [] ∧ parseESpecs (entries ++ [toStringLossy current]) [] rest = .ok table := by
  rw [parseESpecs, if_pos rfl] at h
  split_ifs at h with hcurrent
  exact ⟨hcurrent, h⟩

theorem ne_zero_of_mem_utf8EncodeChar {c : Char} (hc : c ≠ Char.ofNat 0) {b : UInt8}
    (hb : b ∈ String.utf8EncodeChar c) : b ≠ 0 := by
  rintro rfl
  have hnat := toNat_of_mem_utf8EncodeChar hb (by decide)
  exact hc (by rw [← Char.ofNat_toNat c, hnat]; rfl)

/-- **A block that is UTF-8 is written as it was read.** -/
theorem writeESpecs_of_parse {entries table : List String} {current block : List Char}
    (h : parseESpecs entries (current.flatMap String.utf8EncodeChar)
      (block.flatMap String.utf8EncodeChar) = .ok table) :
    writeESpecs table = writeESpecs entries ++ (current.flatMap String.utf8EncodeChar ++
      block.flatMap String.utf8EncodeChar) := by
  induction block generalizing entries current with
  | nil =>
    rw [List.flatMap_nil, parseESpecs] at h
    split_ifs at h with hcurrent
    obtain rfl := Except.ok.inj h
    rw [hcurrent, List.flatMap_nil, List.append_nil, List.append_nil]
  | cons c block ih =>
    rw [List.flatMap_cons] at h ⊢
    by_cases hc : c = Char.ofNat 0
    · obtain rfl := hc
      obtain ⟨-, h⟩ := parseESpecs_zero h
      have hlossy :
          toStringLossy (current.flatMap String.utf8EncodeChar) = String.ofList current := by
        rw [← String.toList_ofList (l := current)]
        exact (toStringLossy_osString _).trans (by rw [String.toList_ofList])
      have hzero : String.utf8EncodeChar (Char.ofNat 0) = [0] := rfl
      rw [hlossy] at h
      have hrest := ih (show parseESpecs _ (([] : List Char).flatMap _) _ = _ from h)
      rw [hrest, hzero]
      simp [writeESpecs, osString]
    · rw [parseESpecs_append fun _ => ne_zero_of_mem_utf8EncodeChar hc] at h
      have hcurrent : current.flatMap String.utf8EncodeChar ++ String.utf8EncodeChar c =
          (current ++ [c]).flatMap String.utf8EncodeChar := by simp
      rw [hcurrent] at h
      rw [ih h]
      simp

theorem toStringLossy_ne_empty {bytes : List UInt8} (h : bytes ≠ []) :
    toStringLossy bytes ≠ "" := by
  obtain ⟨b, rest, rfl⟩ := List.exists_cons_of_ne_nil h
  intro hempty
  have hchars := congrArg String.toList hempty
  simp [toStringLossy, decodeLossy] at hchars

/-- There are as many specifications as there are zeros, and none of them is empty. -/
theorem parseESpecs_eq_ok {entries table : List String} {current block : List UInt8}
    (h : parseESpecs entries current block = .ok table) :
    table.length = entries.length + block.count 0 ∧
      ∀ spec ∈ table, spec ∈ entries ∨ spec ≠ "" := by
  induction block generalizing entries current with
  | nil =>
    rw [parseESpecs] at h
    split_ifs at h
    obtain rfl := Except.ok.inj h
    exact ⟨rfl, fun _ => Or.inl⟩
  | cons b block ih =>
    by_cases hb : b = 0
    · subst hb
      obtain ⟨hcurrent, h⟩ := parseESpecs_zero h
      obtain ⟨hlength, hmem⟩ := ih h
      refine ⟨?_, fun spec hspec => ?_⟩
      · rw [hlength, List.count_cons_self, List.length_append, List.length_singleton]
        omega
      · rcases hmem spec hspec with hspec | hne
        · rw [List.mem_append, List.mem_singleton] at hspec
          exact hspec.imp_right fun heq => by rw [heq]; exact toStringLossy_ne_empty hcurrent
        · exact .inr hne
    · rw [parseESpecs, if_neg hb] at h
      rw [List.count_cons_of_ne hb]
      exact ih h

theorem zero_mem_osString_iff {spec : String} :
    (0 : UInt8) ∈ osString spec ↔ Char.ofNat 0 ∈ spec.toList := by
  rw [osString, List.mem_flatMap]
  constructor
  · rintro ⟨c, hc, hzero⟩
    by_contra hnone
    exact ne_zero_of_mem_utf8EncodeChar (fun heq => hnone (heq ▸ hc)) hzero rfl
  · exact fun hmem => ⟨_, hmem, by decide⟩

/-- **A table comes back** exactly if no specification is empty or has a zero in it. -/
theorem parseESpecs_writeESpecs_iff {table : List String} :
    parseESpecs [] [] (writeESpecs table) = .ok table ↔
      ∀ spec ∈ table, spec ≠ "" ∧ Char.ofNat 0 ∉ spec.toList := by
  constructor
  · intro h
    obtain ⟨hlength, hne⟩ := parseESpecs_eq_ok h
    refine fun spec hspec => ⟨(hne spec hspec).resolve_left List.not_mem_nil, fun hzero => ?_⟩
    -- the zeros are those that close the specifications, and no others
    have hcount : ∀ table : List String, (writeESpecs table).count 0 =
        table.length + (table.map fun spec => (osString spec).count 0).sum := fun table => by
      induction table with
      | nil => rfl
      | cons spec table ih =>
        have hcons : writeESpecs (spec :: table) = osString spec ++ [0] ++ writeESpecs table := rfl
        rw [hcons, List.count_append, List.count_append, ih, List.count_singleton_self,
          List.length_cons, List.map_cons, List.sum_cons]
        omega
    rw [hcount, List.length_nil] at hlength
    have hle := List.le_sum_of_mem
      (List.mem_map_of_mem (f := fun spec => (osString spec).count 0) hspec)
    have hpos := List.count_pos_iff.mpr (zero_mem_osString_iff.mpr hzero)
    omega
  · intro h
    suffices hfold : ∀ entries, parseESpecs entries [] (writeESpecs table) =
        .ok (entries ++ table) from hfold []
    induction table with
    | nil => exact fun entries => by rw [List.append_nil]; rfl
    | cons spec table ih =>
      rw [List.forall_mem_cons] at h
      obtain ⟨⟨hne, hzero⟩, htable⟩ := h
      intro entries
      have hbytes : ∀ b ∈ osString spec, b ≠ 0 := fun b hb heq =>
        hzero (zero_mem_osString_iff.mp (heq ▸ hb))
      have hcurrent : osString spec ≠ [] := fun hnil => hne (osString_injective hnil)
      have hcons : writeESpecs (spec :: table) = osString spec ++ (0 :: writeESpecs table) := by
        simp [writeESpecs]
      rw [hcons, parseESpecs_append hbytes, List.nil_append, parseESpecs, if_pos rfl,
        if_neg hcurrent, toStringLossy_osString, ih htable, List.append_assoc]
      rfl

/-! ### A file is written as it was read -/

/-- The indexes have an entry for every page. -/
structure EncodingFile.Indexed (file : EncodingFile) : Prop where
  ckeyPages : file.ckeyPages.length ≤ file.ckeyIndex.length
  ekeyPages : file.ekeyPages.length ≤ file.ekeyIndex.length

theorem EncodingFile.Stands.indexed {file : EncodingFile} (h : file.Stands md5) : file.Indexed :=
  ⟨h.ckeyPages.length_eq.ge, h.ekeyPages.length_eq.ge⟩

theorem writePages_eq_ok_iff {T : Type} {index : List IndexEntry} {pages : List (Page T)}
    {bytes : List UInt8} : writePages md5 index pages = .ok bytes ↔
      pages.length ≤ index.length ∧ bytes = bytesOfPages md5 index pages := by
  unfold writePages
  split_ifs with hlength
  · simp [hlength]
  · rw [Except.ok.injEq, and_iff_right (Nat.not_lt.mp hlength), eq_comm]

theorem build_eq_ok_iff {file : EncodingFile} {bytes : List UInt8} :
    file.build md5 = .ok bytes ↔
      (writeESpecs file.especTable).length = file.header.especBlockSize.toNat ∧ file.Indexed ∧
      bytes = file.bytesWith md5 (writeESpecs file.especTable)
        ((file.trailingEspec.map osString).getD []) := by
  unfold EncodingFile.build EncodingFile.bytesWith
  dsimp only
  split_ifs with hlength
  · simp [hlength]
  · rw [not_not] at hlength
    rw [and_iff_right hlength]
    simp only [Program.except_bind_eq_ok_iff, writePages_eq_ok_iff]
    constructor
    · rintro ⟨_, ⟨hckey, rfl⟩, _, ⟨hekey, rfl⟩, hbytes⟩
      exact ⟨⟨hckey, hekey⟩, (Except.ok.inj hbytes).symm⟩
    · rintro ⟨⟨hckey, hekey⟩, rfl⟩
      exact ⟨_, ⟨hckey, rfl⟩, _, ⟨hekey, rfl⟩, rfl⟩

/-- The parts of a file are determined where they stand. -/
theorem bytesWith_inj {file : EncodingFile} {especData especData' trailingData trailingData' :
    List UInt8} (hlength : especData.length = especData'.length)
    (h : file.bytesWith md5 especData trailingData = file.bytesWith md5 especData' trailingData') :
    especData = especData' ∧ trailingData = trailingData' := by
  obtain ⟨hespec, hrest⟩ := List.append_inj (List.append_cancel_left h) hlength
  exact ⟨hespec, List.append_cancel_left (List.append_cancel_left hrest)⟩

theorem trailingText_osString {text : Option String} :
    trailingText ((text.map osString).getD []) = text ↔ text ≠ some "" := by
  cases text with
  | none => simp [trailingText]
  | some text =>
    have hnil : osString text = [] ↔ text = "" :=
      ⟨fun h => osString_injective h, fun h => by rw [h]; rfl⟩
    simp only [trailingText, Option.map_some, Option.getD_some, toStringLossy_osString, hnil]
    split_ifs with hempty <;> simp [hempty]

/-- **A file that is built is read back** exactly if its pages are those of its indexes, its
table comes back and the text at its end is not empty. -/
theorem parse_build_iff_stands {file : EncodingFile} {bytes : List UInt8}
    (h : file.build md5 = .ok bytes) :
    parse md5 bytes = .ok file ↔ file.Stands md5 ∧
      (∀ spec ∈ file.especTable, spec ≠ "" ∧ Char.ofNat 0 ∉ spec.toList) ∧
      file.trailingEspec ≠ some "" := by
  obtain ⟨hsize, -, rfl⟩ := build_eq_ok_iff.mp h
  rw [parse_eq_ok_iff, ← parseESpecs_writeESpecs_iff, ← trailingText_osString]
  constructor
  · rintro ⟨hstands, especData, trailingData, hlength, htable, htrailing, hbytes⟩
    obtain ⟨rfl, rfl⟩ := bytesWith_inj (hsize.trans hlength.symm) hbytes
    exact ⟨hstands, htable, htrailing.symm⟩
  · rintro ⟨hstands, htable, htrailing⟩
    exact ⟨hstands, _, _, hsize, htable, htrailing.symm, rfl⟩

/-- A table is written in UTF-8. -/
theorem exists_osString_eq_writeESpecs (table : List String) :
    ∃ text, osString text = writeESpecs table := by
  induction table with
  | nil => exact ⟨"", rfl⟩
  | cons spec table ih =>
    obtain ⟨text, htext⟩ := ih
    refine ⟨String.ofList (spec.toList ++ Char.ofNat 0 :: text.toList), ?_⟩
    have hzero : String.utf8EncodeChar (Char.ofNat 0) = [0] := rfl
    rw [writeESpecs, List.flatMap_cons, ← writeESpecs, ← htext]
    simp [osString, hzero]

/-- Bytes that are UTF-8. -/
def IsUtf8 (bytes : List UInt8) : Prop := fromUtf8 bytes ≠ none

theorem isUtf8_iff {bytes : List UInt8} :
    IsUtf8 bytes ↔ osString (toStringLossy bytes) = bytes := by
  unfold IsUtf8 fromUtf8
  split_ifs with h <;> simp [h]

/-- **A file that was read is written byte for byte** exactly if its specifications and the text
at its end are UTF-8: whatever its pages are, and whatever the padding. -/
theorem build_of_parse {data : List UInt8} {file : EncodingFile} (h : parse md5 data = .ok file) :
    file.build md5 = .ok data ↔
      IsUtf8 ((data.drop 22).take file.header.especBlockSize.toNat) ∧
      IsUtf8 (data.drop file.header.dataSize) := by
  obtain ⟨hstands, especData, trailingData, hlength, htable, htrailing, rfl⟩ := parse_eq_ok_iff.mp h
  have hespec : ((file.bytesWith md5 especData trailingData).drop 22).take
      file.header.especBlockSize.toNat = especData := by
    rw [EncodingFile.bytesWith, ← length_writeHeader file.header, List.drop_left, ← hlength,
      List.take_left]
  have hend : (file.bytesWith md5 especData trailingData).drop file.header.dataSize =
      trailingData := by
    have hsplit : file.bytesWith md5 especData trailingData =
        file.bytesWith md5 especData [] ++ trailingData := by
      simp [EncodingFile.bytesWith]
    have hwhole : (file.bytesWith md5 especData []).length = file.header.dataSize := by
      simp only [EncodingFile.bytesWith, List.append_nil, List.length_append, length_writeHeader,
        bytesOfPages_eq hstands.ckeyPages, bytesOfPages_eq hstands.ekeyPages,
        length_flatMap_writeIndexEntry, length_flatMap_originalData hstands.ckeyPages,
        length_flatMap_originalData hstands.ekeyPages, hstands.ckeyCount, hstands.ekeyCount,
        hlength, EncodingHeader.dataSize]
      ring
    rw [hsplit, ← hwhole, List.drop_left]
  rw [hespec, hend, isUtf8_iff, isUtf8_iff, build_eq_ok_iff, and_iff_right hstands.indexed]
  -- the text at the end is what it was decoded to, or nothing
  have htext : (file.trailingEspec.map osString).getD [] =
      osString (toStringLossy trailingData) := by
    rw [htrailing, trailingText]
    split_ifs with hnil
    · rw [hnil]
      rfl
    · rfl
  constructor
  · rintro ⟨hsize, hbytes⟩
    obtain ⟨heq, htext'⟩ := bytesWith_inj (hlength.trans hsize.symm) hbytes
    refine ⟨?_, (htext'.trans htext).symm⟩
    obtain ⟨text, htable'⟩ := exists_osString_eq_writeESpecs file.especTable
    rw [heq, ← htable', toStringLossy_osString]
  · rintro ⟨hespecUtf8, htrailingUtf8⟩
    have hwritten : writeESpecs file.especTable = especData := by
      rw [← hespecUtf8] at htable ⊢
      exact @writeESpecs_of_parse [] _ [] _ htable
    rw [hwritten, htext, htrailingUtf8]
    exact ⟨hlength, rfl⟩

variable (md5) in
/-- **Parsing and building undo each other**, each way exactly as far as the texts in the file
allow: the parser must give them back, and the bytes must have been texts. -/
theorem parse_build_round_trips :
    (∀ (file : EncodingFile) (bytes : List UInt8), file.build md5 = .ok bytes →
      (parse md5 bytes = .ok file ↔ file.Stands md5 ∧
        (∀ spec ∈ file.especTable, spec ≠ "" ∧ Char.ofNat 0 ∉ spec.toList) ∧
        file.trailingEspec ≠ some "")) ∧
      ∀ (file : EncodingFile) (data : List UInt8), parse md5 data = .ok file →
        (file.build md5 = .ok data ↔
          IsUtf8 ((data.drop 22).take file.header.especBlockSize.toNat) ∧
          IsUtf8 (data.drop file.header.dataSize)) :=
  ⟨fun _ _ => parse_build_iff_stands, fun _ _ => build_of_parse⟩

end Encoding

end AssetResolver
